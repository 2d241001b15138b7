import Polyglot.Proofs.FollowedScanners
import Polyglot.Proofs.ReaderInduction

/-!
Reading a text that is followed by more text, side by side with reading it alone. Where a reading of
the text alone succeeds, it has come to the final stretch of the text, or the same is read from the
text that is followed by more; a reading that ends a tag is never in the final stretch.
-/
namespace Polyglot

namespace Cursor

variable {more : Sequel} {σ : Scanner} {s s' t : Cursor} {token : Token}

theorem Near.next_of_step (h : s.Near σ) (hstep : s.step = (.ok token, t)) :
    ∃ τ, σ.next = (.ok (some token), τ) ∧ t = ⟨[], τ, token.line⟩ := by
  obtain ⟨line, rfl | rfl⟩ := h
  · exact Cursor.next_of_step hstep
  · rw [step_looked] at hstep
    exact Cursor.next_of_step hstep

theorem Near.next_of_peek_none (h : s.Near σ) (hpeek : (s.peek 0).result = .ok none) :
    ∃ τ, σ.next = (.ok none, τ) := by
  have hfresh : ∀ line, ((Cursor.mk [] σ line).peek 0).result = .ok none →
      ∃ τ, σ.next = (.ok none, τ) := by
    intro line hpeek
    rcases hn : σ.next with ⟨e | token?, τ⟩
    · simp [peek, fetch, hn, Except.map] at hpeek
    · cases token? with
      | none => exact ⟨τ, rfl⟩
      | some token => simp [peek, fetch, hn, Except.map] at hpeek
  obtain ⟨line, rfl | rfl⟩ := h
  · exact hfresh line hpeek
  · rw [(peek_looked _).1] at hpeek
    exact hfresh line hpeek

theorem Near.looked_of_next (h : s.Near σ) {τ : Scanner}
    (hnext : σ.next = (.ok (some token), τ)) : ∃ line, s.looked = ⟨[token], τ, line⟩ := by
  have hfresh : ∀ line, (Cursor.mk [] σ line).looked = ⟨[token], τ, line⟩ := by
    intro line
    simp [Cursor.looked, peek, fetch, hnext]
  obtain ⟨line, rfl | rfl⟩ := h
  · exact ⟨line, hfresh line⟩
  · exact ⟨line, by rw [looked_looked, hfresh]⟩

/-- The cursor is in a text that fits what follows, and in the final stretch of it unless the other
cursor is at the same place in the text that is followed by more. The other cursor never has less
left to read, so that what is read from the one can be read beside it. -/
structure Meets (more : Sequel) (σ : Scanner) (s s' : Cursor) : Prop where
  near : s.Near σ
  fits : σ.Fits more
  size_le : s.size ≤ s'.size
  follows : σ.IsFinal ∨ ∃ line, s'.Near (σ.followed more line)

theorem size_fresh_le (more : Sequel) (τ : Scanner) (l l' line : Nat) :
    (Cursor.mk [] τ l).size ≤ (Cursor.mk [] (τ.followed more line) l').size := by
  simp [size, Scanner.followed]

/-- What a step does on both sides, unless the first is in the final stretch and stays there. -/
theorem Meets.step (h : Meets more σ s s') (hstep : s.step = (.ok token, t)) :
    ∃ τ, t = ⟨[], τ, token.line⟩ ∧ τ.Fits more ∧ (token.lexeme.endsTag = true → τ.mode = .text) ∧
      (σ.IsFinal ∧ τ.IsFinal ∧ token.lexeme.endsTag = false ∨
        ¬ σ.IsFinal ∧ ∃ l line,
          s'.step = (.ok ⟨token.lexeme, l⟩, ⟨[], τ.followed more line, l⟩)) := by
  obtain ⟨τ, hnext, rfl⟩ := h.near.next_of_step hstep
  refine ⟨τ, rfl, h.fits.next hnext, Scanner.mode_of_endsTag hnext, ?_⟩
  by_cases hfinal : σ.IsFinal
  · exact .inl ⟨hfinal, hfinal.next hnext⟩
  · obtain ⟨line, hs'⟩ := h.follows.resolve_left hfinal
    obtain ⟨l, line', hnext'⟩ := Scanner.next_followed hfinal h.fits hnext line
    exact .inr ⟨hfinal, l, line', hs'.step hnext'⟩

/-- Both cursors are right after the end of a tag, and neither has looked at what comes. -/
structure Outside (more : Sequel) (σ : Scanner) (s s' : Cursor) : Prop where
  mode : σ.mode = .text
  fits : σ.Fits more
  fresh : ∃ l, s = ⟨[], σ, l⟩
  follows : ∃ l line, s' = ⟨[], σ.followed more line, l⟩

theorem Outside.meets (h : Outside more σ s s') : Meets more σ s s' := by
  obtain ⟨l, rfl⟩ := h.fresh
  obtain ⟨l', line, rfl⟩ := h.follows
  exact ⟨near_fresh σ l, h.fits, size_fresh_le more σ l l' line, .inr ⟨line, near_fresh _ l'⟩⟩

end Cursor

namespace Reading

open Cursor

variable {α β γ δ : Type} {more : Sequel} {σ : Scanner} {s s' : Cursor} {closed : Bool}
  {key : α → γ} {key' : β → δ} {lost : Cursor → Prop} {found : β → Cursor → β → Cursor → Prop}

/-- Where a reading succeeds, it is lost, or it has not begun in the final stretch of the text and
the other reading has found its counterpart. -/
def Leads (σ : Scanner) (lost : Cursor → Prop) (found : α → Cursor → α → Cursor → Prop)
    (r : Reading s α) (r' : Reading s' α) : Prop :=
  ∀ a, r.result = .ok a →
    lost r.rest ∨ ¬ σ.IsFinal ∧ ∃ a' t', r'.Gives a' t' ∧ found a r.rest a' t'

/-- The cursor has come to the final stretch of the text. A reading that is `closed` never does. -/
def IsLost (more : Sequel) (closed : Bool) (t : Cursor) : Prop :=
  closed = false ∧ ∃ τ : Scanner, t.Near τ ∧ τ.Fits more ∧ τ.IsFinal

/-- Results with the same key, with both cursors at the same place. A reading that is `closed` ends
with a tag. -/
def IsFound (more : Sequel) (closed : Bool) (key : α → γ) (a : α) (t : Cursor) (a' : α)
    (t' : Cursor) : Prop :=
  key a' = key a ∧ ∃ τ : Scanner, t.Near τ ∧ τ.Fits more ∧ t.size ≤ t'.size ∧
    (∃ line, t'.Near (τ.followed more line)) ∧ (closed = true → Outside more τ t t')

/-- Where a reading succeeds, it comes to the final stretch of the text, or the other reading gives
a result with the same key and goes on from the same place. -/
def Continues (more : Sequel) (closed : Bool) (key : α → γ) (σ : Scanner) (r : Reading s α)
    (r' : Reading s' α) : Prop :=
  Leads σ (IsLost more closed) (IsFound more closed key) r r'

theorem isFound_of_outside (h : Outside more σ s s') {a a' : α} (ha : key a' = key a) :
    IsFound more closed key a s a' s' := by
  have hmeets := h.meets
  obtain ⟨l, line, rfl⟩ := h.follows
  exact ⟨ha, σ, hmeets.near, hmeets.fits, hmeets.size_le, ⟨line, near_fresh _ l⟩, fun _ => h⟩

theorem leads_fail {e : Error} {found : α → Cursor → α → Cursor → Prop} {r' : Reading s' α} :
    Leads σ lost found (fail s e) r' :=
  fun _ h => nomatch h

theorem leads_refuse {fault : Fault} {line : Nat} {found : α → Cursor → α → Cursor → Prop}
    {r' : Reading s' α} : Leads σ lost found (refuse s fault line) r' :=
  leads_fail

theorem continues_done (h : Meets more σ s s') {a a' : α} (ha : key a' = key a) :
    Continues more false key σ (done s a) (done s' a') := by
  intro b hb
  cases hb
  by_cases hfinal : σ.IsFinal
  · exact .inl ⟨rfl, σ, h.near, h.fits, hfinal⟩
  · have hs' := h.follows.resolve_left hfinal
    exact .inr ⟨hfinal, a', s', gives_done s' a', ha, σ, h.near, h.fits, h.size_le, hs',
      Bool.false_ne_true.elim⟩

theorem continues_map {r : Reading s α} {r' : Reading s' α} {f f' : α → β}
    (h : Continues more closed key σ r r')
    (hf : ∀ a a', key a' = key a → key' (f' a') = key' (f a)) :
    Continues more closed key' σ (r.map f) (r'.map f') := by
  intro b hb
  cases hr : r.result with
  | error e => simp [map, hr, Except.map] at hb
  | ok a =>
    simp only [map, hr, Except.map, Except.ok.injEq] at hb
    subst hb
    refine (h a hr).imp_right ?_
    rintro ⟨hfinal, a', t', hgives, ha, hplace⟩
    exact ⟨hfinal, f' a', t', gives_map f' hgives, hf a a' ha, hplace⟩

/-- A reading that has come to the final stretch stays there, whatever is read beside it. -/
theorem leads_andThen {r : Reading s α} {r' : Reading s' α}
    {next : (a : α) → (t : Cursor) → t.size ≤ s.size → Reading t β}
    {next' : (a : α) → (t : Cursor) → t.size ≤ s'.size → Reading t β} (hs : Meets more σ s s')
    (h : Continues more closed key σ r r')
    (hnext : ∀ a a' t t' ht ht' τ, key a' = key a → Meets more τ t t' →
      Leads τ lost found (next a t ht) (next' a' t' ht')) :
    Leads σ lost found (r.andThen next) (r'.andThen next') := by
  intro b hb
  cases hr : r.result with
  | error e =>
    rw [andThen_of_error hr] at hb
    cases hb
  | ok a =>
    rw [andThen_of_ok hr] at hb ⊢
    rcases h a hr with ⟨_, τ, hnear, hfits, hfinal⟩ |
      ⟨hσ, a', t', hgives, ha, τ, hnear, hfits, hsize, ht', _⟩
    · have hmeets : Meets more τ r.rest s' :=
        ⟨hnear, hfits, Nat.le_trans r.size_le hs.size_le, .inl hfinal⟩
      refine (hnext a a r.rest s' r.size_le (Nat.le_refl _) τ rfl hmeets b hb).imp_right ?_
      exact fun hfound => absurd hfinal hfound.1
    · have hle : t'.size ≤ s'.size := hgives.rest ▸ r'.size_le
      have hmeets : Meets more τ r.rest t' := ⟨hnear, hfits, hsize, .inr ht'⟩
      refine (hnext a a' r.rest t' r.size_le hle τ ha hmeets b hb).imp_right ?_
      rintro ⟨_, b', u', hgives', hfound⟩
      exact ⟨hσ, b', u', gives_andThen hgives fun _ => hgives', hfound⟩

/-- Right after the end of a tag both cursors are known exactly. -/
theorem leads_closed_andThen {r : Reading s α} {r' : Reading s' α}
    {next : (a : α) → (t : Cursor) → t.size ≤ s.size → Reading t β}
    {next' : (a : α) → (t : Cursor) → t.size ≤ s'.size → Reading t β}
    (h : Continues more true key σ r r')
    (hnext : ∀ a a' t t' ht ht' τ, key a' = key a → Outside more τ t t' →
      ∀ b, (next a t ht).result = .ok b → lost (next a t ht).rest ∨
        ∃ b' u', (next' a' t' ht').Gives b' u' ∧ found b (next a t ht).rest b' u') :
    Leads σ lost found (r.andThen next) (r'.andThen next') := by
  intro b hb
  cases hr : r.result with
  | error e =>
    rw [andThen_of_error hr] at hb
    cases hb
  | ok a =>
    rw [andThen_of_ok hr] at hb ⊢
    rcases h a hr with ⟨hclosed, _⟩ | ⟨hσ, a', t', hgives, ha, τ, _, _, _, _, houtside⟩
    · cases hclosed
    · have hle : t'.size ≤ s'.size := hgives.rest ▸ r'.size_le
      refine (hnext a a' r.rest t' r.size_le hle τ ha (houtside rfl) b hb).imp_right ?_
      rintro ⟨b', u', hgives', hfound⟩
      exact ⟨hσ, b', u', gives_andThen hgives fun _ => hgives', hfound⟩

theorem Leads.lost_or_found {found : α → Cursor → α → Cursor → Prop} {r : Reading s α}
    {r' : Reading s' α} (h : Leads σ lost found r r') {a : α} (ha : r.result = .ok a) :
    lost r.rest ∨ ∃ a' t', r'.Gives a' t' ∧ found a r.rest a' t' :=
  (h a ha).imp_right fun hfound => hfound.2

end Reading

namespace Cursor

open Reading

variable {α β γ : Type} {more : Sequel} {σ : Scanner} {s s' : Cursor} {lost : Cursor → Prop}
  {found : β → Cursor → β → Cursor → Prop}

/-- Where the mode can still end, both sides see the same token. -/
theorem Meets.look (h : Meets more σ s s') (hfinal : ¬ σ.IsFinal) {token? : Option Token}
    (hpeek : (s.peek 0).result = .ok token?) :
    ∃ token τ l, token? = some token ∧ σ.next = (.ok (some token), τ) ∧
      (s'.peek 0).Gives (some ⟨token.lexeme, l⟩) s'.looked ∧ s.looked.size ≤ s'.looked.size ∧
      ∃ line, s'.looked.Near (σ.followed more line) := by
  obtain ⟨line, hs'⟩ := h.follows.resolve_left hfinal
  cases token? with
  | none =>
    obtain ⟨τ, hnext⟩ := h.near.next_of_peek_none hpeek
    exact absurd hnext (Scanner.next_ne_none hfinal)
  | some token =>
    obtain ⟨t, hstep⟩ := step_of_peek hpeek
    obtain ⟨τ, hnext, _⟩ := h.near.next_of_step hstep
    obtain ⟨l, line', hnext'⟩ := Scanner.next_followed hfinal h.fits hnext line
    have hpeek' := peek_of_step (hs'.step hnext')
    have hsize : s.looked.size ≤ s'.looked.size := by
      obtain ⟨_, hlooked⟩ := h.near.looked_of_next hnext
      obtain ⟨_, hlooked'⟩ := hs'.looked_of_next hnext'
      simp [hlooked, hlooked', size, Scanner.followed]
    exact ⟨token, τ, l, rfl, hnext, gives_peek hpeek', hsize, line, hs'.looked⟩

theorem continues_peek (h : Meets more σ s s') :
    Continues more false (Option.map (·.lexeme)) σ (s.peek 0) (s'.peek 0) := by
  intro token? hpeek
  by_cases hfinal : σ.IsFinal
  · exact .inl ⟨rfl, σ, h.near.looked, h.fits, hfinal⟩
  · obtain ⟨token, τ, l, rfl, _, hgives, hsize, hs'⟩ := h.look hfinal hpeek
    exact .inr ⟨hfinal, _, _, hgives, rfl, σ, h.near.looked, h.fits, hsize, hs',
      Bool.false_ne_true.elim⟩

/-- Goes on after a look at the next token, knowing that it is one that the scanner finds. -/
theorem leads_peek_andThen (h : Meets more σ s s') (hfinal : ¬ σ.IsFinal)
    {next : Option Token → (t : Cursor) → t.size ≤ s.size → Reading t β}
    {next' : Option Token → (t : Cursor) → t.size ≤ s'.size → Reading t β}
    (hnext : ∀ token l t t' ht ht' τ, σ.next = (.ok (some token), τ) → Meets more σ t t' →
      Leads σ lost found (next (some token) t ht) (next' (some ⟨token.lexeme, l⟩) t' ht')) :
    Leads σ lost found ((s.peek 0).andThen next) ((s'.peek 0).andThen next') := by
  intro b hb
  cases hr : (s.peek 0).result with
  | error e =>
    rw [andThen_of_error hr] at hb
    cases hb
  | ok token? =>
    rw [andThen_of_ok hr] at hb ⊢
    obtain ⟨token, τ, l, rfl, hscan, hgives, hsize, hs'⟩ := h.look hfinal hr
    have hle : s'.looked.size ≤ s'.size := (s'.peek 0).size_le
    have hmeets : Meets more σ s.looked s'.looked := ⟨h.near.looked, h.fits, hsize, .inr hs'⟩
    refine (hnext token l s.looked s'.looked (s.peek 0).size_le hle τ hscan hmeets b
      hb).imp_right ?_
    rintro ⟨_, b', u', hgives', hfound⟩
    exact ⟨hfinal, b', u', gives_andThen hgives fun _ => hgives', hfound⟩

theorem leads_take (h : Meets more σ s s')
    {k : (token : Token) → (t : Cursor) → t.size < s.size → Reading t β}
    {k' : (token : Token) → (t : Cursor) → t.size < s'.size → Reading t β}
    (hk : ∀ token token' t t' ht ht' τ, token'.lexeme = token.lexeme → Meets more τ t t' →
      Leads τ lost found (k token t ht) (k' token' t' ht')) :
    Leads σ lost found (s.take k) (s'.take k') := by
  intro b hb
  cases hr : s.next.result with
  | error e =>
    rw [take, Reading.bind_of_error hr] at hb
    cases hb
  | ok token =>
    rw [take, Reading.bind_of_ok hr] at hb ⊢
    have hstep : s.step = (.ok token, s.next.rest) := Prod.ext hr rfl
    have hlt := size_step_lt hr
    obtain ⟨τ, hrest, hfits, _, ⟨hσ, hfinal, _⟩ | ⟨hσ, l, line, hstep'⟩⟩ := h.step hstep
    · -- beside a reading in the final stretch its own cursor does as well as any other
      have hmeets : Meets more τ s.next.rest s.next.rest :=
        ⟨hrest ▸ near_fresh τ _, hfits, Nat.le_refl _, .inl hfinal⟩
      refine (hk token token s.next.rest s.next.rest hlt (Nat.lt_of_lt_of_le hlt h.size_le) τ rfl
        hmeets b hb).imp_right ?_
      exact fun hfound => absurd hfinal hfound.1
    · have hmeets : Meets more τ s.next.rest ⟨[], τ.followed more line, l⟩ :=
        ⟨hrest ▸ near_fresh τ _, hfits, hrest ▸ size_fresh_le more τ _ _ _,
          .inr ⟨line, near_fresh _ _⟩⟩
      refine (hk token ⟨token.lexeme, l⟩ s.next.rest _ hlt (size_lt_of_step hstep') τ rfl hmeets b
        hb).imp_right ?_
      rintro ⟨_, b', u', hgives, hfound⟩
      exact ⟨hσ, b', u', gives_take hstep' fun _ => hgives, hfound⟩

theorem leads_choose (h : Meets more σ s s') {wanted : Lexeme → Option α}
    {yes : (a : α) → (t : Cursor) → t.size < s.size → Reading t β}
    {yes' : (a : α) → (t : Cursor) → t.size < s'.size → Reading t β}
    {no : (t : Cursor) → t.size ≤ s.size → Reading t β}
    {no' : (t : Cursor) → t.size ≤ s'.size → Reading t β}
    (hyes : ∀ a t t' ht ht' τ, Meets more τ t t' →
      Leads τ lost found (yes a t ht) (yes' a t' ht'))
    (hno : ∀ t t' ht ht' τ, Meets more τ t t' → Leads τ lost found (no t ht) (no' t' ht')) :
    Leads σ lost found (s.choose wanted yes no) (s'.choose wanted yes' no') := by
  refine leads_andThen h (continues_peek h) fun token? token?' t t' ht ht' τ hkey hm => ?_
  have hwanted : (token?'.bind fun token => wanted token.lexeme) =
      token?.bind fun token => wanted token.lexeme := by
    have hbind := congrArg (fun x? : Option Lexeme => x?.bind wanted) hkey
    simp only [Option.bind_map] at hbind
    exact hbind
  rw [hwanted]
  split
  · next a _ => exact leads_take hm fun _ _ u u' hu hu' υ _ hm => hyes a u u' _ _ υ hm
  · exact hno t t' ht ht' τ hm

theorem leads_takeName (h : Meets more σ s s')
    {k : (n : String) → (t : Cursor) → t.size < s.size → Reading t β}
    {k' : (n : String) → (t : Cursor) → t.size < s'.size → Reading t β}
    (hk : ∀ n t t' ht ht' τ, Meets more τ t t' → Leads τ lost found (k n t ht) (k' n t' ht')) :
    Leads σ lost found (s.takeName k) (s'.takeName k') := by
  refine leads_take h fun token token' t t' ht ht' τ hkey hm => ?_
  obtain ⟨x, line⟩ := token
  obtain ⟨x', line'⟩ := token'
  obtain rfl : x' = x := hkey
  cases x' with
  | name n => exact hk n t t' ht ht' τ hm
  | _ => exact leads_refuse

theorem continues_name (h : Meets more σ s s') :
    Continues more false id σ s.name s'.name :=
  leads_takeName h fun _ _ _ _ _ _ hm => continues_done hm rfl

theorem continues_sees (h : Meets more σ s s') (x : Lexeme) :
    Continues more false id σ (s.sees x) (s'.sees x) := by
  refine continues_map (continues_peek h) fun token? token?' hkey => ?_
  have hany := congrArg (fun x? : Option Lexeme => x?.any (· == x)) hkey
  simpa [Option.any_map] using hany

theorem continues_tagName (h : Meets more σ s s') :
    Continues more false id σ s.tagName s'.tagName := by
  refine leads_andThen h (continues_peek h) fun token? token?' t t' ht ht' τ hkey hm => ?_
  cases token? with
  | none => exact leads_refuse
  | some token =>
    obtain ⟨token', rfl, hlexeme⟩ := Option.map_eq_some_iff.1 hkey
    obtain ⟨x, line⟩ := token
    obtain ⟨x', line'⟩ := token'
    obtain rfl : x' = x := hlexeme
    cases x' with
    | name n => exact continues_done hm rfl
    | _ => exact leads_refuse

/-- A lexeme that ends tags closes the reading. -/
theorem continues_expect (h : Meets more σ s s') (x : Lexeme) :
    Continues more x.endsTag (·.lexeme) σ (s.expect x) (s'.expect x) := by
  intro token hok
  obtain ⟨hstep, rfl⟩ := ensures_expect s x token hok
  obtain ⟨τ, hrest, hfits, hmode, hcase⟩ := h.step hstep
  rcases hcase with ⟨_, hfinal, hends⟩ | ⟨hσ, l, line, hstep'⟩
  · exact .inl ⟨hends, τ, hrest ▸ near_fresh τ _, hfits, hfinal⟩
  · exact .inr ⟨hσ, _, _, gives_expect hstep', rfl, τ, hrest ▸ near_fresh τ _, hfits,
      hrest ▸ size_fresh_le more τ _ _ _, ⟨line, near_fresh _ _⟩,
      fun hends => ⟨hmode hends, hfits, ⟨_, hrest⟩, l, line, rfl⟩⟩

/-- Text up to a tag that has an end; a tag without one is in the final stretch. -/
theorem continues_raw {name : String} (hopen : '\x7b' ∉ name.toList)
    (hclose : '\x7d' ∉ name.toList) (h : Outside more σ s s') :
    Continues more false id σ (s.raw name) (s'.raw name) := by
  obtain ⟨l, rfl⟩ := h.fresh
  obtain ⟨l', line, rfl⟩ := h.follows
  intro content hcontent
  cases hraw : σ.rawUntil name with
  | mk text? τ =>
    cases text? with
    | none => simp [raw, hraw, refuse, fail] at hcontent
    | some text =>
      obtain ⟨hresult, hrest⟩ := gives_raw hraw l
      rw [hresult] at hcontent
      cases hcontent
      obtain ⟨hsuffix, htrims⟩ := Scanner.rest_rawUntil_suffix hraw
      have hnear : ((Cursor.mk [] σ l).raw name).rest.Near τ := hrest ▸ near_fresh τ _
      have hfits : τ.Fits more := h.fits.of_suffix hsuffix htrims
      by_cases hfinal : τ.IsFinal
      · exact .inl ⟨rfl, τ, hnear, hfits, hfinal⟩
      · obtain ⟨line', hraw'⟩ := Scanner.rawUntil_followed hopen hclose hraw hfinal more line
        exact .inr ⟨Scanner.not_isFinal_of_rawUntil h.mode hraw, content, _, gives_raw hraw' l',
          rfl, τ, hnear, hfits, hrest ▸ size_fresh_le more τ _ _ _, ⟨line', near_fresh _ _⟩,
          Bool.false_ne_true.elim⟩

/-- What was read is continued by what the reader reads, wherever the other cursor may be. -/
def ReadsAlong (more : Sequel) (closed : Bool) (key : α → γ) (x : Reading s α)
    (read : (s : Cursor) → Reading s α) : Prop :=
  ∀ σ s', Meets more σ s s' → Continues more closed key σ x (read s')

end Cursor

namespace Expr

open Cursor Reading

/-- What is read of a text alone is read of the text that is followed by more as well. -/
def following (more : Sequel) (checks : Bool) : Contract where
  level l _ x := ReadsAlong more false id x ((readers checks).level l)
  operators l e _ x := ReadsAlong more false id x ((readers checks).operators l e)
  filters e _ x := ReadsAlong more false id x ((readers checks).filters e)
  selectors e _ x := ReadsAlong more false id x ((readers checks).selectors e)
  primary _ x := ReadsAlong more false id x (readers checks).primary
  arguments close _ x := ReadsAlong more false id x ((readers checks).arguments close)
  items _ x := ReadsAlong more false id x (readers checks).items
  pairs _ x := ReadsAlong more false id x (readers checks).pairs
  entries _ x := ReadsAlong more false id x (readers checks).entries

variable {more : Sequel} {checks : Bool} {r : Readers}

theorem readsAlong_level (h : r.Keep (following more checks)) (l : Level) (s : Cursor) :
    ReadsAlong more false id ((r.calling checks).level l s) ((readers checks).level l) := by
  intro σ s' hs
  rw [← calling_readers checks]
  dsimp only [Readers.calling]
  refine leads_choose hs (fun op t t' _ _ τ hm => ?_) fun t t' _ _ τ hm => ?_
  · exact continues_map (h.level l t τ t' hm) fun _ _ he => congrArg (unary op) he
  · by_cases hl : l = .sign
    · rw [dif_pos hl, dif_pos hl]
      refine leads_andThen hm (h.primary t τ t' hm) fun e _ u u' _ _ υ he hm => ?_
      obtain rfl := he
      refine leads_andThen hm (h.selectors _ u υ u' hm) fun e _ v v' _ _ φ he hm => ?_
      obtain rfl := he
      exact h.filters _ v φ v' hm
    · rw [dif_neg hl, dif_neg hl]
      refine leads_andThen hm (h.level l.tighter t τ t' hm) fun e _ u u' _ _ υ he hm => ?_
      obtain rfl := he
      exact h.operators l _ u υ u' hm

theorem readsAlong_operators (h : r.Keep (following more checks)) (l : Level) (e : Expr)
    (s : Cursor) :
    ReadsAlong more false id ((r.calling checks).operators l e s)
      ((readers checks).operators l e) := by
  intro σ s' hs
  rw [← calling_readers checks, Readers.calling_operators, Readers.calling_operators]
  refine leads_choose hs (fun op t t' _ _ τ hm => ?_) fun t t' _ _ τ hm => ?_
  · refine leads_andThen hm (h.level l.tighter t τ t' hm) fun x _ u u' _ _ υ hx hm => ?_
    obtain rfl := hx
    exact h.operators l _ u υ u' hm
  · exact continues_done hm rfl

theorem readsAlong_filters (h : r.Keep (following more checks)) (e : Expr) (s : Cursor) :
    ReadsAlong more false id ((r.calling checks).filters e s) ((readers checks).filters e) := by
  intro σ s' hs
  rw [← calling_readers checks, Readers.calling_filters, Readers.calling_filters]
  refine leads_choose hs (fun _ t t' _ _ τ hm => ?_) fun t t' _ _ τ hm => ?_
  · refine leads_andThen hm (continues_name hm) fun n _ u u' _ _ υ hn hm => ?_
    obtain rfl := hn
    refine leads_choose hm (fun _ v v' _ _ φ hm => ?_) fun v v' _ _ φ hm => ?_
    · refine leads_andThen hm (h.arguments _ v φ v' hm) fun args _ w w' _ _ ψ hargs hm => ?_
      obtain rfl := hargs
      exact h.filters _ w ψ w' hm
    · exact h.filters _ v φ v' hm
  · exact continues_done hm rfl

theorem readsAlong_selectors (h : r.Keep (following more checks)) (e : Expr) (s : Cursor) :
    ReadsAlong more false id ((r.calling checks).selectors e s) ((readers checks).selectors e) := by
  intro σ s' hs
  rw [← calling_readers checks, Readers.calling_selectors, Readers.calling_selectors]
  refine leads_choose hs (fun _ t t' _ _ τ hm => ?_) fun t t' _ _ τ hm => ?_
  · refine leads_andThen hm (continues_name hm) fun key _ u u' _ _ υ hkey hm => ?_
    obtain rfl := hkey
    exact h.selectors _ u υ u' hm
  refine leads_choose hm (fun _ u u' _ _ υ hm => ?_) fun u u' _ _ υ hm => ?_
  · refine leads_andThen hm (h.level .or u υ u' hm) fun i _ v v' _ _ φ hi hm => ?_
    obtain rfl := hi
    refine leads_andThen hm (continues_expect hm _) fun _ _ w w' _ _ ψ _ hm => ?_
    exact h.selectors _ w ψ w' hm
  refine leads_choose hm (fun n v v' _ _ φ hm => ?_) fun v v' _ _ φ hm => ?_
  · refine leads_andThen hm (h.arguments _ v φ v' hm) fun args _ w w' _ _ ψ hargs hm => ?_
    obtain rfl := hargs
    exact h.selectors _ w ψ w' hm
  · exact continues_done hm rfl

theorem readsAlong_primary (h : r.Keep (following more checks)) (s : Cursor) :
    ReadsAlong more false id ((r.calling checks).primary s) (readers checks).primary := by
  intro σ s' hs
  rw [← calling_readers checks]
  dsimp only [Readers.calling]
  refine leads_take hs fun token token' t t' _ _ τ hkey hm => ?_
  rw [hkey]
  split
  · exact continues_done hm rfl
  · exact continues_done hm rfl
  · exact continues_done hm rfl
  · refine leads_andThen hm (h.level .or t τ t' hm) fun e _ u u' _ _ υ he hm => ?_
    obtain rfl := he
    exact continues_map (continues_expect hm _) fun _ _ _ => rfl
  · exact continues_map (h.arguments _ t τ t' hm) fun _ _ hes => congrArg list hes
  · exact continues_map (h.pairs t τ t' hm) fun _ _ hes => congrArg map hes
  · exact leads_refuse

theorem readsAlong_arguments (h : r.Keep (following more checks)) (close : Symbol)
    (s : Cursor) :
    ReadsAlong more false id ((r.calling checks).arguments close s)
      ((readers checks).arguments close) := by
  intro σ s' hs
  rw [← calling_readers checks]
  dsimp only [Readers.calling]
  refine leads_choose hs (fun _ t t' _ _ τ hm => ?_) fun t t' _ _ τ hm => ?_
  · exact continues_done hm rfl
  · refine leads_andThen hm (h.items t τ t' hm) fun es _ u u' _ _ υ hes hm => ?_
    obtain rfl := hes
    exact continues_map (continues_expect hm _) fun _ _ _ => rfl

theorem readsAlong_items (h : r.Keep (following more checks)) (s : Cursor) :
    ReadsAlong more false id ((r.calling checks).items s) (readers checks).items := by
  intro σ s' hs
  rw [← calling_readers checks, Readers.calling_items, Readers.calling_items]
  refine leads_andThen hs (h.level .or s σ s' hs) fun e _ t t' _ _ τ he hm => ?_
  obtain rfl := he
  refine leads_choose hm (fun _ u u' _ _ υ hm => ?_) fun u u' _ _ υ hm => ?_
  · exact continues_map (h.items u υ u' hm) fun _ _ hes => congrArg (_ :: ·) hes
  · exact continues_done hm rfl

theorem readsAlong_pairs (h : r.Keep (following more checks)) (s : Cursor) :
    ReadsAlong more false id ((r.calling checks).pairs s) (readers checks).pairs := by
  intro σ s' hs
  rw [← calling_readers checks]
  dsimp only [Readers.calling]
  refine leads_choose hs (fun _ t t' _ _ τ hm => ?_) fun t t' _ _ τ hm => ?_
  · exact continues_done hm rfl
  · refine leads_andThen hm (h.entries t τ t' hm) fun es _ u u' _ _ υ hes hm => ?_
    obtain rfl := hes
    exact continues_map (continues_expect hm _) fun _ _ _ => rfl

theorem readsAlong_entries (h : r.Keep (following more checks)) (s : Cursor) :
    ReadsAlong more false id ((r.calling checks).entries s) (readers checks).entries := by
  intro σ s' hs
  rw [← calling_readers checks, Readers.calling_entries, Readers.calling_entries]
  refine leads_andThen hs (h.level .or s σ s' hs) fun key _ t t' _ _ τ hkey hm => ?_
  obtain rfl := hkey
  refine leads_andThen hm (continues_expect hm _) fun _ _ u u' _ _ υ _ hm => ?_
  refine leads_andThen hm (h.level .or u υ u' hm) fun e _ v v' _ _ φ he hm => ?_
  obtain rfl := he
  refine leads_choose hm (fun _ w w' _ _ ψ hm => ?_) fun w w' _ _ ψ hm => ?_
  · exact continues_map (h.entries w ψ w' hm) fun _ _ hes => congrArg (_ :: ·) hes
  · exact continues_done hm rfl

theorem refusing_keep_following (more : Sequel) (checks : Bool) :
    Readers.refusing.Keep (following more checks) where
  level _ _ _ _ _ := leads_refuse
  operators _ _ _ _ _ _ := leads_refuse
  filters _ _ _ _ _ := leads_refuse
  selectors _ _ _ _ _ := leads_refuse
  primary _ _ _ _ := leads_refuse
  arguments _ _ _ _ _ := leads_refuse
  items _ _ _ _ := leads_refuse
  pairs _ _ _ _ := leads_refuse
  entries _ _ _ _ := leads_refuse

theorem calling_keep_following (h : r.Keep (following more checks)) :
    (r.calling checks).Keep (following more checks) where
  level := readsAlong_level h
  operators := readsAlong_operators h
  filters := readsAlong_filters h
  selectors := readsAlong_selectors h
  primary := readsAlong_primary h
  arguments := readsAlong_arguments h
  items := readsAlong_items h
  pairs := readsAlong_pairs h
  entries := readsAlong_entries h

theorem readers_keep_following (more : Sequel) (checks : Bool) :
    (readers checks).Keep (following more checks) :=
  keep_readers (refusing_keep_following more checks) fun _ h => calling_keep_following h

/-- An expression is read alike whatever follows the tag it stands in. -/
theorem readsAlong_read (more : Sequel) (checks : Bool) (s : Cursor) :
    ReadsAlong more false id (read checks s) (read checks) :=
  (readers_keep_following more checks).level .or s

end Expr

end Polyglot
