import Polyglot.Proofs.ExprTrees
import Polyglot.Proofs.ReaderInduction
import Polyglot.Proofs.ScannerSteps
import Polyglot.Proofs.WrittenLexemes

/-!
What every expression that was read satisfies: its numbers are not negative, its names are words and
no constants are among them, and it has checks in it only if the reader was asked for them.
-/
namespace Polyglot

/-- Names are words, and numbers have no sign. -/
def Lexeme.IsSound : Lexeme → Prop
  | name n => Scanner.isIdentifier n = true
  | int i => 0 ≤ i.value
  | _ => True

namespace Scanner

theorem isSound_of_wordLexeme {c : Char} {cs : List Char} {x : Lexeme} {n : Nat}
    (h : wordLexeme c cs = .ok (x, n)) : x.IsSound := by
  rcases wordLexeme_cases h with ⟨value, k, _, _, rfl, _⟩ | ⟨i, hi, _, rfl, _⟩ | ⟨hstart, rfl, _⟩
  · trivial
  · have hvalue := Integer.ofInt?_eq_some_iff.1 hi
    simp only [Lexeme.IsSound, hvalue]
    exact Int.natCast_nonneg _
  · exact isIdentifier_letters hstart cs

theorem isSound_of_tagLexeme {b n : Nat} {cs : List Char} {x : Lexeme}
    (h : tagLexeme b cs = .ok (some (x, n))) : x.IsSound := by
  rcases tagLexeme_cases h with
    ⟨_, rfl, _⟩ | ⟨_, _, rfl, _⟩ | ⟨y, _, rfl, _⟩ | ⟨c, rest, _, _, hword⟩
  · trivial
  · trivial
  · trivial
  · exact isSound_of_wordLexeme hword

theorem isSound_of_textLexeme (cs : List Char) : (textLexeme cs).1.IsSound := by
  unfold textLexeme
  split <;> trivial

theorem isSound_of_next {s t : Scanner} {token : Token} (h : s.next = (.ok (some token), t)) :
    token.lexeme.IsSound := by
  rcases next_cases h with ⟨_, _, htake⟩ | ⟨b, x, n, _, hlexeme, htake⟩
  · obtain rfl : _ = token := congrArg Prod.fst htake
    exact isSound_of_textLexeme s.rest
  · obtain rfl : _ = token := congrArg Prod.fst htake
    exact isSound_of_tagLexeme hlexeme

end Scanner

namespace Cursor

/-- The tokens that were looked at are sound. -/
def Sound (s : Cursor) : Prop := ∀ token ∈ s.ahead, token.lexeme.IsSound

theorem sound_of_step {s t : Cursor} {token : Token} (hs : s.Sound)
    (h : s.step = (.ok token, t)) : token.lexeme.IsSound ∧ t.Sound := by
  obtain ⟨ahead, scanner, line⟩ := s
  cases ahead with
  | cons first ahead =>
    cases h
    exact List.forall_mem_cons.1 hs
  | nil =>
    obtain ⟨u, hnext, rfl⟩ := next_of_step h
    exact ⟨Scanner.isSound_of_next hnext, fun _ hm => absurd hm List.not_mem_nil⟩

theorem Sound.looked {s : Cursor} (hs : s.Sound) : s.looked.Sound := by
  obtain ⟨ahead, scanner, line⟩ := s
  cases ahead with
  | cons first ahead =>
    rw [looked_of_ahead (by simp)]
    exact hs
  | nil =>
    cases hn : scanner.next with
    | mk r t =>
      match r with
      | .ok (some token) =>
        have htoken := Scanner.isSound_of_next hn
        simpa [Cursor.looked, peek, fetch, hn, Sound] using htoken
      | .ok none => simp [Cursor.looked, peek, fetch, hn, Sound]
      | .error e => simp [Cursor.looked, peek, fetch, hn, Sound]

theorem sound_ofTemplate (source : String) (trims : Bool) : (ofTemplate source trims).Sound :=
  fun _ h => absurd h List.not_mem_nil

end Cursor

/-- Every success has a property and ends at a sound cursor. -/
def Reading.Obtains {α : Type} {s : Cursor} (r : Reading s α) (P : α → Prop) : Prop :=
  r.Ensures fun a t => P a ∧ t.Sound

namespace Cursor

variable {α β : Type} {s : Cursor} {Q : β → Cursor → Prop}

theorem Sound.ensures_choose (hs : s.Sound) {wanted : Lexeme → Option α}
    {yes : (a : α) → (t : Cursor) → t.size < s.size → Reading t β}
    {no : (t : Cursor) → t.size ≤ s.size → Reading t β}
    (hyes : ∀ a t ht, t.Sound → (yes a t ht).Ensures Q)
    (hno : ∀ t ht, t.Sound → (no t ht).Ensures Q) : (s.choose wanted yes no).Ensures Q :=
  Cursor.ensures_choose (fun _ a t ht hstep _ => hyes a t ht (sound_of_step hs hstep).2)
    fun ht => hno _ ht hs.looked

theorem Sound.ensures_expect (hs : s.Sound) (x : Lexeme) :
    (s.expect x).Ensures fun _ t => t.Sound :=
  (Cursor.ensures_expect s x).mono fun _ _ h => (sound_of_step hs h.1).2

theorem Sound.ensures_takeName (hs : s.Sound)
    {k : (n : String) → (t : Cursor) → t.size < s.size → Reading t β}
    (hk : ∀ n t ht, Scanner.isIdentifier n = true → t.Sound → (k n t ht).Ensures Q) :
    (s.takeName k).Ensures Q :=
  Cursor.ensures_takeName fun n _ t ht hstep =>
    hk n t ht (sound_of_step hs hstep).1 (sound_of_step hs hstep).2

theorem Sound.ensures_name (hs : s.Sound) :
    s.name.Obtains fun n => Scanner.isIdentifier n = true :=
  hs.ensures_takeName fun _ _ _ hn ht => Reading.ensures_done ⟨hn, ht⟩

end Cursor

namespace Expr

/-- What the reader grants of one expression, apart from those inside it. -/
def IsRead (checks : Bool) : Expr → Prop
  | literal (.int i) => 0 ≤ i.value
  | name n => Scanner.isIdentifier n = true ∧ ofName n = name n
  | call n _ => Scanner.isIdentifier n = true ∧ ofName n = name n
  | member _ key => Scanner.isIdentifier key = true
  | filter _ n _ => Scanner.isIdentifier n = true
  | checked _ => checks = true
  | _ => True

variable {checks : Bool}

theorem isRead_ofName {n : String} (h : Scanner.isIdentifier n = true) :
    (ofName n).Every (IsRead checks) := by
  unfold ofName
  split
  · trivial
  · trivial
  · trivial
  · trivial
  · refine ⟨h, ?_⟩
    unfold ofName
    split <;> simp_all

theorem isRead_filtered {e : Expr} {n : String} {args : List Expr}
    (he : e.Every (IsRead checks)) (hn : Scanner.isIdentifier n = true)
    (hargs : ∀ a ∈ args, a.Every (IsRead checks)) :
    (filtered checks e n args).Every (IsRead checks) := by
  have hargs' := everyItem_iff.2 hargs
  unfold filtered
  split
  · next hchecks => exact ⟨hn, ⟨hchecks, he⟩, hargs'⟩
  · exact ⟨hn, he, hargs'⟩

def AreRead (checks : Bool) (es : List Expr) : Prop := ∀ e ∈ es, e.Every (IsRead checks)

def EntriesRead (checks : Bool) (es : List (Expr × Expr)) : Prop :=
  ∀ x ∈ es, x.1.Every (IsRead checks) ∧ x.2.Every (IsRead checks)

/-- What is read from sound tokens is as the reader grants it. -/
def granting (checks : Bool) : Contract where
  level _ s x := s.Sound → x.Obtains (Every (IsRead checks))
  operators _ e s x := e.Every (IsRead checks) → s.Sound → x.Obtains (Every (IsRead checks))
  filters e s x := e.Every (IsRead checks) → s.Sound → x.Obtains (Every (IsRead checks))
  selectors e s x := e.Every (IsRead checks) → s.Sound → x.Obtains (Every (IsRead checks))
  primary s x := s.Sound → x.Obtains (Every (IsRead checks))
  arguments _ s x := s.Sound → x.Obtains (AreRead checks)
  items s x := s.Sound → x.Obtains (AreRead checks)
  pairs s x := s.Sound → x.Obtains (EntriesRead checks)
  entries s x := s.Sound → x.Obtains (EntriesRead checks)

section

variable {r : Readers}

theorem obtains_level (h : r.Keep (granting checks)) (l : Level) (s : Cursor) (hs : s.Sound) :
    ((r.calling checks).level l s).Obtains (Every (IsRead checks)) := by
  dsimp only [Readers.calling]
  refine hs.ensures_choose (fun op t _ hsound => ?_) fun t _ hsound => ?_
  · exact Reading.ensures_map ((h.level l t hsound).mono fun e u he => ⟨⟨trivial, he.1⟩, he.2⟩)
  · split
    · refine Reading.ensures_andThen (h.primary t hsound) fun e u _ he => ?_
      refine Reading.ensures_andThen (h.selectors e u he.1 he.2) fun e v _ he => ?_
      exact h.filters e v he.1 he.2
    · refine Reading.ensures_andThen (h.level l.tighter t hsound) fun e u _ he => ?_
      exact h.operators l e u he.1 he.2

theorem obtains_operators (h : r.Keep (granting checks)) (l : Level) {e : Expr} (s : Cursor)
    (he : e.Every (IsRead checks)) (hs : s.Sound) :
    ((r.calling checks).operators l e s).Obtains (Every (IsRead checks)) := by
  rw [Readers.calling_operators]
  refine hs.ensures_choose (fun op t _ hsound => ?_) fun t _ hsound => ?_
  · refine Reading.ensures_andThen (h.level l.tighter t hsound) fun x u _ hx => ?_
    exact h.operators l _ u ⟨trivial, he, hx.1⟩ hx.2
  · exact Reading.ensures_done ⟨he, hsound⟩

theorem obtains_filters (h : r.Keep (granting checks)) {e : Expr} (s : Cursor)
    (he : e.Every (IsRead checks)) (hs : s.Sound) :
    ((r.calling checks).filters e s).Obtains (Every (IsRead checks)) := by
  rw [Readers.calling_filters]
  refine hs.ensures_choose (fun _ t _ hsound => ?_) fun t _ hsound => ?_
  · refine Reading.ensures_andThen hsound.ensures_name fun n u _ hn => ?_
    refine hn.2.ensures_choose (fun _ v _ hsound => ?_) fun v _ hsound => ?_
    · refine Reading.ensures_andThen (h.arguments _ v hsound) fun args w _ ha => ?_
      exact h.filters _ w (isRead_filtered he hn.1 ha.1) ha.2
    · exact h.filters _ v
        (isRead_filtered he hn.1 fun _ h => absurd h List.not_mem_nil) hsound
  · exact Reading.ensures_done ⟨he, hsound⟩

/-- Only a name that is no constant can be called. -/
theorem obtains_selectors (h : r.Keep (granting checks)) {e : Expr} (s : Cursor)
    (he : e.Every (IsRead checks)) (hs : s.Sound) :
    ((r.calling checks).selectors e s).Obtains (Every (IsRead checks)) := by
  rw [Readers.calling_selectors]
  refine hs.ensures_choose (fun _ t _ hsound => ?_) fun t _ hsound => ?_
  · refine Reading.ensures_andThen hsound.ensures_name fun key u _ hkey => ?_
    exact h.selectors _ u ⟨hkey.1, he⟩ hkey.2
  refine hsound.ensures_choose (fun _ u _ hsound => ?_) fun u _ hsound => ?_
  · refine Reading.ensures_andThen (h.level .or u hsound) fun i v _ hi => ?_
    refine Reading.ensures_andThen (hi.2.ensures_expect _) fun _ w _ hsound => ?_
    exact h.selectors _ w ⟨trivial, he, hi.1⟩ hsound
  refine Cursor.ensures_choose (fun token n v _ hstep hn => ?_) fun _ => ?_
  · have hname : Scanner.isIdentifier n = true ∧ ofName n = name n := by
      split at hn
      · cases e <;> cases hn
        exact he.self
      · cases hn
    have hsound := (Cursor.sound_of_step hsound hstep).2
    refine Reading.ensures_andThen (h.arguments _ v hsound) fun args w _ ha => ?_
    exact h.selectors _ w ⟨hname, everyItem_iff.2 ha.1⟩ ha.2
  · exact Reading.ensures_done ⟨he, hsound.looked⟩

theorem obtains_primary (h : r.Keep (granting checks)) (s : Cursor) (hs : s.Sound) :
    ((r.calling checks).primary s).Obtains (Every (IsRead checks)) := by
  dsimp only [Readers.calling]
  refine Cursor.ensures_take fun token t _ hstep => ?_
  obtain ⟨hlexeme, hsound⟩ := Cursor.sound_of_step hs hstep
  split
  · exact Reading.ensures_done ⟨trivial, hsound⟩
  · next i hi =>
    rw [hi] at hlexeme
    exact Reading.ensures_done ⟨hlexeme, hsound⟩
  · next n hn =>
    rw [hn] at hlexeme
    exact Reading.ensures_done ⟨isRead_ofName hlexeme, hsound⟩
  · refine Reading.ensures_andThen (h.level .or t hsound) fun e u _ he => ?_
    exact Reading.ensures_map ((he.2.ensures_expect _).mono fun _ v hv => ⟨he.1, hv⟩)
  · exact Reading.ensures_map ((h.arguments _ t hsound).mono fun es u hes =>
      ⟨⟨trivial, everyItem_iff.2 hes.1⟩, hes.2⟩)
  · exact Reading.ensures_map ((h.pairs t hsound).mono fun es u hes =>
      ⟨⟨trivial, everyEntry_iff.2 hes.1⟩, hes.2⟩)
  · exact Reading.ensures_refuse

theorem obtains_arguments (h : r.Keep (granting checks)) (close : Symbol) (s : Cursor)
    (hs : s.Sound) :
    ((r.calling checks).arguments close s).Obtains (AreRead checks) := by
  dsimp only [Readers.calling]
  refine hs.ensures_choose (fun _ t _ hsound => ?_) fun t _ hsound => ?_
  · exact Reading.ensures_done ⟨fun _ h => absurd h List.not_mem_nil, hsound⟩
  · refine Reading.ensures_andThen (h.items t hsound) fun es u _ hes => ?_
    exact Reading.ensures_map ((hes.2.ensures_expect _).mono fun _ v hv => ⟨hes.1, hv⟩)

theorem obtains_items (h : r.Keep (granting checks)) (s : Cursor) (hs : s.Sound) :
    ((r.calling checks).items s).Obtains (AreRead checks) := by
  rw [Readers.calling_items]
  refine Reading.ensures_andThen (h.level .or s hs) fun e t _ he => ?_
  refine he.2.ensures_choose (fun _ u _ hsound => ?_) fun u _ hsound => ?_
  · exact Reading.ensures_map ((h.items u hsound).mono fun es v hes =>
      ⟨List.forall_mem_cons.2 ⟨he.1, hes.1⟩, hes.2⟩)
  · exact Reading.ensures_done ⟨List.forall_mem_singleton.2 he.1, hsound⟩

theorem obtains_pairs (h : r.Keep (granting checks)) (s : Cursor) (hs : s.Sound) :
    ((r.calling checks).pairs s).Obtains (EntriesRead checks) := by
  dsimp only [Readers.calling]
  refine hs.ensures_choose (fun _ t _ hsound => ?_) fun t _ hsound => ?_
  · exact Reading.ensures_done ⟨fun _ h => absurd h List.not_mem_nil, hsound⟩
  · refine Reading.ensures_andThen (h.entries t hsound) fun es u _ hes => ?_
    exact Reading.ensures_map ((hes.2.ensures_expect _).mono fun _ v hv => ⟨hes.1, hv⟩)

theorem obtains_entries (h : r.Keep (granting checks)) (s : Cursor) (hs : s.Sound) :
    ((r.calling checks).entries s).Obtains (EntriesRead checks) := by
  rw [Readers.calling_entries]
  refine Reading.ensures_andThen (h.level .or s hs) fun key t _ hkey => ?_
  refine Reading.ensures_andThen (hkey.2.ensures_expect _) fun _ u _ hsound => ?_
  refine Reading.ensures_andThen (h.level .or u hsound) fun e v _ he => ?_
  refine he.2.ensures_choose (fun _ w _ hsound => ?_) fun w _ hsound => ?_
  · exact Reading.ensures_map ((h.entries w hsound).mono fun es x hes =>
      ⟨List.forall_mem_cons.2 ⟨⟨hkey.1, he.1⟩, hes.1⟩, hes.2⟩)
  · exact Reading.ensures_done ⟨List.forall_mem_singleton.2 ⟨hkey.1, he.1⟩, hsound⟩

theorem refusing_keep_granting (checks : Bool) : Readers.refusing.Keep (granting checks) where
  level _ _ _ := Reading.ensures_refuse
  operators _ _ _ _ _ := Reading.ensures_refuse
  filters _ _ _ _ := Reading.ensures_refuse
  selectors _ _ _ _ := Reading.ensures_refuse
  primary _ _ := Reading.ensures_refuse
  arguments _ _ _ := Reading.ensures_refuse
  items _ _ := Reading.ensures_refuse
  pairs _ _ := Reading.ensures_refuse
  entries _ _ := Reading.ensures_refuse

theorem calling_keep_granting (h : r.Keep (granting checks)) :
    (r.calling checks).Keep (granting checks) where
  level := obtains_level h
  operators l _ := obtains_operators h l
  filters _ := obtains_filters h
  selectors _ := obtains_selectors h
  primary := obtains_primary h
  arguments := obtains_arguments h
  items := obtains_items h
  pairs := obtains_pairs h
  entries := obtains_entries h

end

theorem readers_keep_granting (checks : Bool) : (readers checks).Keep (granting checks) :=
  keep_readers (refusing_keep_granting checks) fun _ h => calling_keep_granting h

theorem ensures_read (checks : Bool) {s : Cursor} (hs : s.Sound) :
    (read checks s).Obtains (Every (IsRead checks)) :=
  (readers_keep_granting checks).level .or s hs

end Expr

end Polyglot
