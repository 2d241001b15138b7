import Polyglot.Proofs.FollowedScanners
import Polyglot.Proofs.TokenStreams

/-!
Reading goes forward only. A cursor gets from one place to another by looking at tokens, by taking
them and by passing over text as it stands; none of these puts a token back, and every token that is
found is at least one character of the text. So the text that is left and the tokens that wait bound
the tokens that can still be taken. A reading makes progress if it gets on in these ways only and
takes some least number of tokens when it succeeds.
-/
namespace Polyglot

namespace Scanner

/-- The number of bytes that are still to be read. -/
def bytes (σ : Scanner) : Nat := (String.ofList σ.rest).utf8ByteSize

variable {σ τ : Scanner} {token : Token}

/-- Every character is at least one byte. -/
theorem length_le_bytes (cs : List Char) : cs.length ≤ (String.ofList cs).utf8ByteSize := by
  induction cs with
  | nil => exact Nat.zero_le _
  | cons c cs ih =>
    have hsplit : String.ofList (c :: cs) = String.singleton c ++ String.ofList cs := by
      rw [String.singleton_eq_ofList, ← String.ofList_append, List.singleton_append]
    have hpos := c.utf8Size_pos
    rw [hsplit, String.utf8ByteSize_append, String.utf8ByteSize_singleton, List.length_cons]
    omega

theorem bytes_lt_of_suffix (h : τ.rest <:+ σ.rest) (hlt : τ.rest.length < σ.rest.length) :
    τ.bytes < σ.bytes := by
  obtain ⟨passed, hpassed⟩ := h
  have hpos := length_le_bytes passed
  rw [← hpassed, List.length_append] at hlt
  rw [bytes, bytes, ← hpassed, String.ofList_append, String.utf8ByteSize_append]
  omega

theorem rest_next_suffix (σ : Scanner) : σ.next.2.rest <:+ σ.rest := by
  have hblank := rest_skipBlank_suffix σ
  unfold next
  split
  · split
    · exact List.suffix_refl _
    · exact rest_takeLexeme_suffix _ _ _
  · dsimp only
    split
    · exact hblank
    · exact (rest_takeLexeme_suffix _ _ _).trans hblank
    · exact hblank

theorem suffix_of_next {r : Except Error (Option Token)} (h : σ.next = (r, τ)) :
    τ.rest <:+ σ.rest := by
  have hsuffix := rest_next_suffix σ
  rwa [h] at hsuffix

/-- A token is at least one byte. -/
theorem bytes_next_lt (h : σ.next = (.ok (some token), τ)) : τ.bytes < σ.bytes :=
  bytes_lt_of_suffix (suffix_of_next h) (length_next_lt h)

end Scanner

namespace Cursor

/-- The cursor gets on to another place and takes some tokens on the way. A step that fails takes
none. With `raws`, text may be passed over as it stands. -/
inductive Passes (raws : Bool) : Cursor → List Token → Cursor → Prop where
  | here (s : Cursor) : Passes raws s [] s
  | look {s t : Cursor} {ts : List Token} (n : Nat) (rest : Passes raws (s.peek n).rest ts t) :
      Passes raws s ts t
  | take {s t u : Cursor} {ts : List Token} {token : Token} (step : s.step = (.ok token, u))
      (rest : Passes raws u ts t) : Passes raws s (token :: ts) t
  | refused {s t u : Cursor} {ts : List Token} {e : Error} (step : s.step = (.error e, u))
      (rest : Passes raws u ts t) : Passes raws s ts t
  | raw {s t : Cursor} {ts : List Token} (allowed : raws = true) (name : String)
      (rest : Passes raws (s.raw name).rest ts t) : Passes raws s ts t

/-- No token was put back on the way: the tokens that waited and those that were found since then
are the ones that were taken and the ones that wait now, in this order. The text that is left is the
end of what was left before, and is shorter by some text for each token that was found. -/
structure Forward (s : Cursor) (ts : List Token) (t : Cursor) : Prop where
  left : t.scanner.rest <:+ s.scanner.rest
  kept : ∃ found, s.ahead ++ found = ts ++ t.ahead ∧
    found.length + t.scanner.rest.length ≤ s.scanner.rest.length

variable {raws : Bool} {s t u : Cursor} {ts us : List Token} {token : Token}

namespace Forward

theorem refl (s : Cursor) : s.Forward [] s :=
  ⟨List.suffix_refl _, [], by simp, by simp⟩

theorem trans (h : s.Forward ts t) (h' : t.Forward us u) : s.Forward (ts ++ us) u := by
  obtain ⟨found, hfound, hle⟩ := h.kept
  obtain ⟨found', hfound', hle'⟩ := h'.kept
  refine ⟨h'.left.trans h.left, found ++ found', ?_, by rw [List.length_append]; omega⟩
  calc s.ahead ++ (found ++ found')
      = ts ++ (t.ahead ++ found') := by rw [← List.append_assoc, hfound, List.append_assoc]
    _ = ts ++ us ++ u.ahead := by rw [hfound', List.append_assoc]

/-- What is left gets less by the tokens that are taken. -/
theorem size_le (h : s.Forward ts t) : ts.length + t.size ≤ s.size := by
  obtain ⟨found, hfound, hle⟩ := h.kept
  have hlength := congrArg List.length hfound
  simp only [List.length_append] at hlength
  simp only [Cursor.size]
  omega

end Forward

theorem forward_fetch (n : Nat) (s : Cursor) : s.Forward [] (fetch n s).2 := by
  induction n generalizing s with
  | zero => exact .refl s
  | succ n ih =>
    unfold fetch
    split
    · next token τ hnext =>
      have hlt := Scanner.length_next_lt hnext
      have hfirst : s.Forward [] { s with ahead := s.ahead ++ [token], scanner := τ } :=
        ⟨Scanner.suffix_of_next hnext, [token], rfl, Nat.add_comm _ _ ▸ hlt⟩
      exact hfirst.trans (ih _)
    · next τ hnext =>
      have hsuffix := Scanner.suffix_of_next hnext
      exact ⟨hsuffix, [], List.append_nil _, by simpa using hsuffix.length_le⟩
    · next e τ hnext =>
      have hsuffix := Scanner.suffix_of_next hnext
      exact ⟨hsuffix, [], List.append_nil _, by simpa using hsuffix.length_le⟩

theorem forward_step (h : s.step = (.ok token, t)) : s.Forward [token] t := by
  obtain ⟨ahead, σ, line⟩ := s
  cases ahead with
  | cons first ahead =>
    simp only [step, Prod.mk.injEq, Except.ok.injEq] at h
    obtain ⟨rfl, rfl⟩ := h
    exact ⟨List.suffix_refl _, [], by simp, by simp⟩
  | nil =>
    obtain ⟨τ, hnext, rfl⟩ := next_of_step h
    have hlt := Scanner.length_next_lt hnext
    exact ⟨Scanner.suffix_of_next hnext, [token], rfl, Nat.add_comm _ _ ▸ hlt⟩

theorem forward_refused {e : Error} (h : s.step = (.error e, t)) : s.Forward [] t := by
  obtain ⟨ahead, σ, line⟩ := s
  cases ahead with
  | cons first ahead => cases h
  | nil =>
    have hsuffix := Scanner.rest_next_suffix σ
    unfold step at h
    dsimp only at h
    split at h
    · cases h
    all_goals
      next hnext =>
      cases h
      rw [hnext] at hsuffix
      exact ⟨hsuffix, [], rfl, by simpa using hsuffix.length_le⟩

theorem forward_raw (s : Cursor) (name : String) : s.Forward [] (s.raw name).rest := by
  unfold raw
  split
  · dsimp only
    split
    · next text htext =>
      obtain ⟨hsuffix, _⟩ := Scanner.rest_rawUntil_suffix (Prod.ext htext rfl)
      exact ⟨hsuffix, [], List.append_nil _, by simpa using hsuffix.length_le⟩
    · exact .refl s
  · exact .refl s

namespace Passes

theorem trans (h : s.Passes raws ts t) (h' : t.Passes raws us u) :
    s.Passes raws (ts ++ us) u := by
  induction h with
  | here s => exact h'
  | look n _ ih => exact .look n (ih h')
  | take step _ ih => exact .take step (ih h')
  | refused step _ ih => exact .refused step (ih h')
  | raw allowed name _ ih => exact .raw allowed name (ih h')

theorem mono (h : s.Passes false ts t) (raws : Bool) : s.Passes raws ts t := by
  induction h with
  | here s => exact .here s
  | look n _ ih => exact .look n ih
  | take step _ ih => exact .take step ih
  | refused step _ ih => exact .refused step ih
  | raw allowed => cases allowed

theorem forward (h : s.Passes raws ts t) : s.Forward ts t := by
  induction h with
  | here s => exact .refl s
  | look n _ ih => exact (forward_fetch _ _).trans ih
  | take step _ ih => exact (forward_step step).trans ih
  | refused step _ ih => exact (forward_refused step).trans ih
  | raw _ name _ ih => exact (forward_raw _ name).trans ih

/-- What is taken is what comes next in the stream of tokens, as long as no text is passed over. -/
theorem stream_eq (h : s.Passes false ts t) :
    s.stream = ⟨ts ++ t.stream.tokens, t.stream.error?⟩ := by
  induction h with
  | here s => rfl
  | look n _ ih => exact (stream_fetch _ _).1.symm.trans ih
  | @take s t u ts token step _ ih =>
    have hresult : s.next.result = .ok token := congrArg Prod.fst step
    have hrest : s.next.rest = u := congrArg Prod.snd step
    cases htokens : s.stream.tokens with
    | nil =>
      obtain ⟨herror, _⟩ := next_of_stream_nil htokens
      cases hresult.symm.trans herror
    | cons first more =>
      obtain ⟨hok, hstream, _⟩ := next_of_stream_cons htokens
      cases hresult.symm.trans hok
      rw [hrest, ih] at hstream
      injection hstream with htail herror
      calc s.stream = ⟨token :: more, s.stream.error?⟩ := by rw [← htokens]
        _ = ⟨token :: ts ++ t.stream.tokens, t.stream.error?⟩ := by
          rw [← htail, ← herror, List.cons_append]
  | @refused s t u ts e step _ ih =>
    have hresult : s.next.result = .error e := congrArg Prod.fst step
    have hrest : s.next.rest = u := congrArg Prod.snd step
    cases htokens : s.stream.tokens with
    | nil =>
      obtain ⟨_, hstream, _⟩ := next_of_stream_nil htokens
      rw [← hstream, hrest, ih]
    | cons first more =>
      obtain ⟨hok, _⟩ := next_of_stream_cons htokens
      cases hresult.symm.trans hok
  | raw allowed => cases allowed

end Passes

end Cursor

namespace Reading

variable {α β : Type} {raws : Bool} {s : Cursor} {least : α → Nat}

/-- The reading gets on by passing tokens, and it has taken some least number of them when it
succeeds. -/
def Progresses (raws : Bool) (least : α → Nat) (r : Reading s α) : Prop :=
  ∃ ts, s.Passes raws ts r.rest ∧ ∀ a, r.result = .ok a → least a ≤ ts.length

/-- The reading gets on by passing tokens. Those that it takes and those that wait at its end are at
most `n`. -/
def FindsAtMost (raws : Bool) (n : Nat) (r : Reading s α) : Prop :=
  ∃ ts, s.Passes raws ts r.rest ∧ ts.length + r.rest.ahead.length ≤ n

theorem progresses_done {a : α} (h : least a = 0) : (done s a).Progresses raws least := by
  refine ⟨[], .here s, ?_⟩
  rintro _ ⟨⟩
  exact Nat.le_of_eq h

theorem progresses_fail {e : Error} : (fail s e).Progresses raws least :=
  ⟨[], .here s, fun _ ha => nomatch ha⟩

theorem progresses_refuse {fault : Fault} {line : Nat} :
    (refuse s fault line).Progresses raws least :=
  progresses_fail

theorem progresses_map {r : Reading s α} {f : α → β} {least : β → Nat}
    (h : r.Progresses raws fun a => least (f a)) : (r.map f).Progresses raws least := by
  obtain ⟨ts, hts, hleast⟩ := h
  refine ⟨ts, hts, fun b hb => ?_⟩
  cases hr : r.result with
  | error e => simp [map, hr, Except.map] at hb
  | ok a =>
    simp only [map, hr, Except.map, Except.ok.injEq] at hb
    subst hb
    exact hleast a hr

theorem Progresses.mono {r : Reading s α} {least' : α → Nat} (h : r.Progresses raws least)
    (hle : ∀ a, least' a ≤ least a) : r.Progresses raws least' := by
  obtain ⟨ts, hts, hleast⟩ := h
  exact ⟨ts, hts, fun a ha => Nat.le_trans (hle a) (hleast a ha)⟩

/-- However many tokens were taken, they were passed. -/
theorem Progresses.weaken {r : Reading s α} (h : r.Progresses raws least) :
    r.Progresses raws fun _ => 0 :=
  h.mono fun _ => Nat.zero_le _

theorem Progresses.withRaws {r : Reading s α} (h : r.Progresses false least) (raws : Bool) :
    r.Progresses raws least := by
  obtain ⟨ts, hts, hleast⟩ := h
  exact ⟨ts, hts.mono raws, hleast⟩

theorem progresses_bind {r : Reading s α} {first : α → Nat} {least : β → Nat}
    {next : (a : α) → r.result = .ok a → Reading r.rest β} (h : r.Progresses raws first)
    (hnext : ∀ a ha, (next a ha).Progresses raws fun b => least b - first a) :
    (r.bind next).Progresses raws least := by
  obtain ⟨ts, hts, hfirst⟩ := h
  cases hr : r.result with
  | error e =>
    rw [bind_of_error hr]
    exact ⟨ts, hts, fun _ hb => nomatch hb⟩
  | ok a =>
    obtain ⟨us, hus, hleast⟩ := hnext a hr
    rw [bind_of_ok hr]
    refine ⟨ts ++ us, hts.trans hus, fun b hb => ?_⟩
    have ha : first a ≤ ts.length := hfirst a hr
    have hb : least b - first a ≤ us.length := hleast b hb
    rw [List.length_append]
    omega

theorem progresses_andThen {r : Reading s α} {first : α → Nat} {least : β → Nat}
    {next : (a : α) → (t : Cursor) → t.size ≤ s.size → Reading t β} (h : r.Progresses raws first)
    (hnext : ∀ a t ht, (next a t ht).Progresses raws fun b => least b - first a) :
    (r.andThen next).Progresses raws least :=
  progresses_bind h fun a _ => hnext a r.rest r.size_le

end Reading

namespace Cursor

variable {α β : Type} {raws : Bool} {s : Cursor} {least : β → Nat}

theorem progresses_peek (s : Cursor) (n : Nat) : (s.peek n).Progresses raws fun _ => 0 :=
  ⟨[], .look n (.here _), fun _ _ => Nat.zero_le _⟩

theorem progresses_next (s : Cursor) : s.next.Progresses raws fun _ => 1 := by
  cases h : s.step with
  | mk r t =>
    have hrest : s.next.rest = t := congrArg Prod.snd h
    cases r with
    | ok token =>
      exact ⟨[token], hrest ▸ .take h (.here t), fun _ _ => Nat.le_refl _⟩
    | error e =>
      have hresult : s.next.result = .error e := congrArg Prod.fst h
      exact ⟨[], hrest ▸ .refused h (.here t), fun _ ha => nomatch hresult.symm.trans ha⟩

theorem progresses_take
    {k : (token : Token) → (t : Cursor) → t.size < s.size → Reading t β}
    (hk : ∀ token t ht, (k token t ht).Progresses raws fun b => least b - 1) :
    (s.take k).Progresses raws least :=
  Reading.progresses_bind s.progresses_next fun token htoken =>
    hk token s.next.rest (size_step_lt htoken)

/-- What is wanted is one token, and nothing is taken where it is not found. -/
theorem progresses_choose {wanted : Lexeme → Option α}
    {yes : (a : α) → (t : Cursor) → t.size < s.size → Reading t β}
    {no : (t : Cursor) → t.size ≤ s.size → Reading t β}
    (hyes : ∀ a t ht, (yes a t ht).Progresses raws fun b => least b - 1)
    (hno : ∀ t ht, (no t ht).Progresses raws least) :
    (s.choose wanted yes no).Progresses raws least := by
  refine Reading.progresses_andThen (s.progresses_peek 0) fun token? t ht => ?_
  split
  · exact progresses_take fun _ u _ => hyes _ u _
  · exact hno t ht

theorem progresses_sees (s : Cursor) (x : Lexeme) : (s.sees x).Progresses raws fun _ => 0 :=
  Reading.progresses_map (s.progresses_peek 0)

theorem progresses_expect (s : Cursor) (x : Lexeme) : (s.expect x).Progresses raws fun _ => 1 := by
  refine Reading.progresses_andThen s.progresses_next fun token t ht => ?_
  split
  · exact Reading.progresses_done rfl
  · exact Reading.progresses_refuse

theorem progresses_takeName
    {k : (n : String) → (t : Cursor) → t.size < s.size → Reading t β}
    (hk : ∀ n t ht, (k n t ht).Progresses raws fun b => least b - 1) :
    (s.takeName k).Progresses raws least := by
  refine progresses_take fun token t ht => ?_
  split
  · exact hk _ t ht
  · exact Reading.progresses_refuse

theorem progresses_name (s : Cursor) : s.name.Progresses raws fun _ => 1 :=
  progresses_takeName fun _ _ _ => Reading.progresses_done rfl

theorem progresses_tagName (s : Cursor) : s.tagName.Progresses raws fun _ => 0 := by
  refine Reading.progresses_andThen (s.progresses_peek 0) fun token? t _ => ?_
  split
  · exact Reading.progresses_refuse
  · exact Reading.progresses_done rfl
  · exact Reading.progresses_refuse

/-- Text that is taken as it stands is no token. -/
theorem progresses_raw (s : Cursor) (name : String) : (s.raw name).Progresses true fun _ => 0 :=
  ⟨[], .raw rfl name (.here _), fun _ _ => Nat.zero_le _⟩

/-- An action takes no token or one. -/
theorem Action.progresses_read (s : Cursor) (action : Action) :
    (action.read s).Progresses raws fun _ => if action.takes then 1 else 0 := by
  cases action with
  | peek n => exact Reading.progresses_map (s.progresses_peek n)
  | sees x => exact Reading.progresses_map (s.progresses_sees x)
  | next => exact Reading.progresses_map s.progresses_next
  | name => exact Reading.progresses_map s.progresses_name
  | expect x => exact Reading.progresses_map (s.progresses_expect x)

end Cursor

end Polyglot
