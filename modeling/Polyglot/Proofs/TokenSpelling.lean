import Polyglot.Proofs.FollowedLexemes
import Polyglot.Proofs.TokenStreams

/-!
What a template is made of. If a template can be cut into tokens to its end, it is the text of its
tokens in their order, with blanks in front of those inside tags and the line breaks that are
dropped behind blocks: nothing else is lost, and every token knows the line it stands on. The
scanner's state is tied to the part of the template that was already cut.
-/
namespace Polyglot

/-- A text between quotes stands for another one: no quote of its kind stands in it but after a
backslash, which takes the next character out of its role. -/
inductive Literal.Unescapes (quote : Char) : List Char → List Char → Prop
  | nil : Unescapes quote [] []
  | escaped (c : Char) {body value : List Char} (h : Unescapes quote body value) :
    Unescapes quote ('\\' :: c :: body) (unescape c :: value)
  | plain {c : Char} {body value : List Char} (hslash : c ≠ '\\') (hquote : c ≠ quote)
    (h : Unescapes quote body value) : Unescapes quote (c :: body) (c :: value)

namespace Lexeme

/-- What a token inside a tag can be written as. -/
inductive IsSpelledAs : Lexeme → List Char → Prop
  | blockEnd : IsSpelledAs blockEnd ['%', '\x7d']
  | printEnd : IsSpelledAs printEnd ['\x7d', '\x7d']
  | symbol (y : Symbol) : IsSpelledAs (symbol y) y.spelled
  | name {n : String} (hn : Scanner.isIdentifier n = true) : IsSpelledAs (name n) n.toList
  | int {i : Integer} {ds : List Char} (hne : ds ≠ []) (hdigits : ∀ d ∈ ds, d.isDigit = true)
    (hvalue : i.value = Decimal.ofDigits ds) : IsSpelledAs (int i) ds
  | str {quote : Char} {body value : List Char} (hquote : quote = '\'' ∨ quote = '"')
    (hbody : Literal.Unescapes quote body value) :
    IsSpelledAs (str (String.ofList value)) (quote :: body ++ [quote])

end Lexeme

def Mode.inTag : Mode → Bool
  | text => false
  | tag _ => true

namespace Scanner

/-- The line on which a template goes on after a part of it. -/
def lineAfter (before : List Char) : Nat := 1 + Blank.lineBreaks before

theorem lineAfter_append (before w : List Char) :
    lineAfter (before ++ w) = lineAfter before + Blank.lineBreaks w := by
  rw [lineAfter, lineAfter, Blank.lineBreaks_append, Nat.add_assoc]

/-- What is dropped between a lexeme and the rest of the template: the line break right behind a
block, if blocks are trimmed and one stands there, and nothing else. -/
def Drops (trims : Bool) (x : Lexeme) (w cs : List Char) : Prop :=
  if trims = true ∧ x = .blockEnd then
    w = ['\n'] ∨ w = ['\r', '\n'] ∨ w = [] ∧ ¬ ['\n'] <+: cs ∧ ¬ ['\r', '\n'] <+: cs
  else w = []

/-- The rest of a template, in text or in a tag, is made of tokens. A text goes on up to the next
tag, so none is empty and no two are adjacent. -/
inductive MadeOf (trims : Bool) : (before : List Char) → (inTag : Bool) → List Char →
    List Token → Prop
  | textEnd {before : List Char} : MadeOf trims before false [] []
  | tagEnd {before ws : List Char} (hblank : ∀ c ∈ ws, Blank.isBlank c = true) :
    MadeOf trims before true ws []
  | text {before w cs : List Char} {ts : List Token} (hne : w ≠ [])
    (hblock : ¬ ['\x7b', '%'] <:+: w) (hprint : ¬ ['\x7b', '\x7b'] <:+: w)
    (happart : ∀ t ∈ ts.head?, ∀ s, t.lexeme ≠ .text s)
    (h : MadeOf trims (before ++ w) false cs ts) :
    MadeOf trims before false (w ++ cs) (⟨.text (String.ofList w), lineAfter before⟩ :: ts)
  | blockStart {before cs : List Char} {ts : List Token}
    (h : MadeOf trims (before ++ ['\x7b', '%']) true cs ts) :
    MadeOf trims before false ('\x7b' :: '%' :: cs) (⟨.blockStart, lineAfter before⟩ :: ts)
  | printStart {before cs : List Char} {ts : List Token}
    (h : MadeOf trims (before ++ ['\x7b', '\x7b']) true cs ts) :
    MadeOf trims before false ('\x7b' :: '\x7b' :: cs) (⟨.printStart, lineAfter before⟩ :: ts)
  | inTag {before ws w v cs : List Char} {x : Lexeme} {ts : List Token}
    (hblank : ∀ c ∈ ws, Blank.isBlank c = true) (hx : x.IsSpelledAs w) (hdrops : Drops trims x v cs)
    (h : MadeOf trims (before ++ (ws ++ (w ++ v))) (!x.endsTag) cs ts) :
    MadeOf trims before true (ws ++ (w ++ (v ++ cs))) (⟨x, lineAfter (before ++ ws)⟩ :: ts)

/-- The tokens from a scanner on, to the end of the template. -/
def tokens (σ : Scanner) : Except Error (List Token) :=
  match h : σ.next with
  | (.ok none, _) => .ok []
  | (.ok (some token), τ) =>
    have := length_next_lt h
    (tokens τ).map (token :: ·)
  | (.error e, _) => .error e
termination_by σ.rest.length

variable {σ τ : Scanner} {token : Token} {x : Lexeme} {n : Nat} {cs : List Char} {ts : List Token}

/-- What was read up to a closing quote stands for what was read. -/
theorem unescapes_of_scan {quote : Char} {value : List Char}
    (h : Literal.scan quote cs = some (value, n)) :
    ∃ body, cs.take n = body ++ [quote] ∧ Literal.Unescapes quote body value := by
  fun_induction Literal.scan quote cs generalizing value n with
  | case1 => cases h
  | case2 => cases h
  | case3 c rest ih =>
    obtain ⟨⟨v, m⟩, hscan, hvalue⟩ := Option.map_eq_some_iff.1 h
    cases hvalue
    obtain ⟨body, hbody, hunescapes⟩ := ih hscan
    exact ⟨'\\' :: c :: body, by simp [hbody], .escaped c hunescapes⟩
  | case4 rest hlast hslash =>
    cases h
    exact ⟨[], by simp, .nil⟩
  | case5 c rest hlast hslash hquote ih =>
    obtain ⟨⟨v, m⟩, hscan, hvalue⟩ := Option.map_eq_some_iff.1 h
    cases hvalue
    obtain ⟨body, hbody, hunescapes⟩ := ih hscan
    have hplain := Literal.ne_backslash hlast hslash
    exact ⟨c :: body, by simp [hbody], .plain hplain hquote hunescapes⟩

theorem take_takeWhile (p : Char → Bool) (c : Char) (cs : List Char) :
    (c :: cs).take ((cs.takeWhile p).length + 1) = c :: cs.takeWhile p := by
  rw [List.take_succ_cons, ← List.prefix_iff_eq_take.1 (List.takeWhile_prefix p)]

theorem isSpelledAs_of_wordLexeme {c : Char} (h : wordLexeme c cs = .ok (x, n)) :
    x.IsSpelledAs ((c :: cs).take n) := by
  rcases wordLexeme_cases h with
    ⟨value, k, hscan, hquote, rfl, rfl⟩ | ⟨i, hi, hdigit, rfl, rfl⟩ | ⟨hstart, rfl, rfl⟩
  · obtain ⟨body, hbody, hunescapes⟩ := unescapes_of_scan hscan
    rw [List.take_succ_cons, hbody]
    exact .str hquote hunescapes
  · rw [take_takeWhile]
    refine .int (by simp) (List.forall_mem_cons.2 ⟨hdigit, ?_⟩) (Integer.ofInt?_eq_some_iff.1 hi)
    exact fun d hd => List.mem_takeWhile_imp hd
  · rw [take_takeWhile]
    simpa using Lexeme.IsSpelledAs.name (isIdentifier_letters hstart cs)

theorem isSpelledAs_of_tagLexeme {b : Nat} (h : tagLexeme b cs = .ok (some (x, n))) :
    x.IsSpelledAs (cs.take n) := by
  rcases tagLexeme_cases h with
    ⟨⟨rest, rfl⟩, rfl, rfl⟩ | ⟨⟨rest, rfl⟩, _, rfl, rfl⟩ | ⟨y, hy, rfl, rfl⟩ |
    ⟨c, rest, rfl, _, hword⟩
  · exact .blockEnd
  · exact .printEnd
  · obtain ⟨rest, rfl⟩ := Symbol.eq_spelled_of_leading? hy
    rw [List.take_left]
    exact .symbol y
  · exact isSpelledAs_of_wordLexeme hword

/-- Where there is no token, only blanks inside a tag are left. -/
theorem next_eq_none (h : σ.next = (.ok none, τ)) :
    (σ.mode = .text ∧ σ.rest = []) ∨
      ∃ b, σ.mode = .tag b ∧ ∀ c ∈ σ.rest, Blank.isBlank c = true := by
  cases hmode : σ.mode with
  | text =>
    refine .inl ⟨rfl, ?_⟩
    by_contra hrest
    rw [next_of_text hmode hrest] at h
    cases h
  | tag b =>
    refine .inr ⟨b, rfl, ?_⟩
    cases hlexeme : tagLexeme b σ.skipBlank.rest with
    | error fault => simp [next, hmode, hlexeme] at h
    | ok r =>
      cases r with
      | some r =>
        rw [next_of_tag hmode hlexeme] at h
        cases h
      | none =>
        have hnil := eq_nil_of_tagLexeme hlexeme
        rw [rest_skipBlank] at hnil
        exact List.dropWhile_eq_nil_iff.1 hnil

/-- The tokens are those of the stream, if it ends without an error. -/
theorem tokens_eq (σ : Scanner) :
    σ.tokens = σ.stream.error?.elim (.ok σ.stream.tokens) .error := by
  fun_induction tokens σ with
  | case1 σ τ hnext =>
    rw [stream_of_end hnext]
    rfl
  | case2 σ token τ hnext _ ih =>
    rw [stream_of_token hnext, ih]
    cases τ.stream.error? <;> rfl
  | case3 σ e τ hnext =>
    rw [stream_of_error hnext]
    rfl

theorem tokens_of_token (h : σ.next = (.ok (some token), τ)) :
    σ.tokens = τ.tokens.map (token :: ·) := by
  rw [tokens_eq, tokens_eq, stream_of_token h]
  cases τ.stream.error? <;> rfl

theorem exists_of_tokens (hnext : σ.next = (.ok (some token), τ)) (h : σ.tokens = .ok ts) :
    ∃ later, τ.tokens = .ok later ∧ ts = token :: later := by
  rw [tokens_of_token hnext] at h
  cases htokens : τ.tokens with
  | error e =>
    rw [htokens] at h
    cases h
  | ok later =>
    rw [htokens] at h
    cases h
    exact ⟨later, rfl, rfl⟩

theorem tokens_of_end (h : σ.next = (.ok none, τ)) : σ.tokens = .ok [] := by
  rw [tokens_eq, stream_of_end h]
  rfl

theorem tokens_of_error {e : Error} (h : σ.next = (.error e, τ)) : σ.tokens = .error e := by
  rw [tokens_eq, stream_of_error h]
  rfl

/-- A template that goes on with a tag, or not at all, does not go on with a text. -/
theorem not_text_of_tokens (hmode : σ.mode = .text)
    (hrest : σ.rest = [] ∨ ∃ d ∈ Mode.text.delimiters, d <+: σ.rest) (h : σ.tokens = .ok ts) :
    ∀ t ∈ ts.head?, ∀ s, t.lexeme ≠ .text s := by
  by_cases hnil : σ.rest = []
  · have hnext : σ.next = (.ok none, σ) := by simp [next, hmode, hnil]
    rw [tokens_of_end hnext] at h
    cases h
    exact fun _ ht => absurd ht (Option.not_mem_none _)
  · obtain ⟨d, hd, hstarts⟩ := hrest.resolve_left hnil
    have hnext := next_of_text hmode hnil
    obtain ⟨later, _, rfl⟩ := exists_of_tokens hnext h
    rintro t ⟨⟩
    exact lexeme_ne_text_of_starts hmode hd hstarts hnext

/-- The rest of the template from a scanner on is made of tokens, whatever stood before it. -/
def LeavesMadeOf (σ : Scanner) (ts : List Token) : Prop :=
  ∀ before, σ.line = lineAfter before → MadeOf σ.trims before σ.mode.inTag σ.rest ts

theorem advance_of_rest {before w : List Char} (hline : σ.line = lineAfter before)
    (hrest : σ.rest = w ++ cs) :
    σ.advance w.length = ⟨cs, lineAfter (before ++ w), σ.mode, σ.trims⟩ := by
  rw [advance, hrest, List.drop_left, List.take_left, lineAfter_append, hline]

/-- Taking a lexeme cuts its text off, and the part that is dropped behind it. -/
theorem takeLexeme_of_rest {before w v : List Char} (hline : σ.line = lineAfter before)
    (hrest : σ.rest = w ++ (v ++ cs)) (hv : σ.dropped x w.length = v.length) :
    σ.takeLexeme x w.length = (⟨x, lineAfter before⟩,
      ⟨cs, lineAfter (before ++ (w ++ v)), σ.mode.after x, σ.trims⟩) := by
  have hsplit : σ.rest = (w ++ v) ++ cs := by rw [hrest, List.append_assoc]
  rw [takeLexeme_eq, hv, ← List.length_append, advance_of_rest hline hsplit, hline]

theorem leavesMadeOf_of_text (hmode : σ.mode = .text) (hne : σ.rest ≠ [])
    (htake : σ.takeLexeme (textLexeme σ.rest).1 (textLexeme σ.rest).2 = (token, τ))
    (h : τ.tokens = .ok ts) (hτ : τ.LeavesMadeOf ts) : σ.LeavesMadeOf (token :: ts) := by
  intro before hline
  -- what follows is the same for all lexemes outside tags, behind which nothing is dropped
  have hcut : ∀ {w cs : List Char} {x : Lexeme}, textLexeme σ.rest = (x, w.length) →
      x ≠ .blockEnd → σ.rest = w ++ cs → token = ⟨x, lineAfter before⟩ ∧
        τ = ⟨cs, lineAfter (before ++ w), σ.mode.after x, σ.trims⟩ := by
    intro w cs x htext hx hrest
    rw [htext, takeLexeme_of_rest (v := []) hline (by simpa using hrest) (dropped_of_ne hx _),
      List.append_nil] at htake
    exact ⟨(Prod.mk.inj htake).1.symm, (Prod.mk.inj htake).2.symm⟩
  rcases textLexeme_cases σ.rest with ⟨rest, hrest, htext⟩ | ⟨rest, hrest, htext⟩ | ⟨hnot, htext⟩
  · obtain ⟨rfl, rfl⟩ := hcut (w := ['\x7b', '%']) htext nofun hrest
    have hmade := hτ _ rfl
    rw [hmode] at hmade ⊢
    rw [hrest]
    exact .blockStart hmade
  · obtain ⟨rfl, rfl⟩ := hcut (w := ['\x7b', '\x7b']) htext nofun hrest
    have hmade := hτ _ rfl
    rw [hmode] at hmade ⊢
    rw [hrest]
    exact .printStart hmade
  · have hrest : σ.rest = plain σ.rest ++ σ.rest.drop (plain σ.rest).length :=
      (List.prefix_iff_eq_append.1 (isPrefix_plain σ.rest)).symm
    obtain ⟨rfl, rfl⟩ := hcut htext nofun hrest
    have hmade := hτ _ rfl
    have happart := not_text_of_tokens (by rw [hmode]; rfl) (ends_or_starts_drop_plain σ.rest) h
    have hplain : plain σ.rest ≠ [] := by
      obtain ⟨c, cs, hcons⟩ := List.exists_cons_of_ne_nil hne
      rw [hcons] at hnot ⊢
      rw [plain_cons_of_not_starts hnot]
      exact List.cons_ne_nil _ _
    have hdelimiters : ∀ d ∈ Mode.text.delimiters, ¬ d <:+: plain σ.rest :=
      fun d hd => not_within_plain hd σ.rest
    rw [hmode] at hmade ⊢
    have htextmade := MadeOf.text hplain (hdelimiters _ (by simp [Mode.delimiters]))
      (hdelimiters _ (by simp [Mode.delimiters])) happart hmade
    rwa [← hrest] at htextmade

/-- The line break that is dropped behind a lexeme is the one that stands there. -/
theorem exists_drops (σ : Scanner) (x : Lexeme) (n : Nat) :
    ∃ v rest, σ.rest.drop n = v ++ rest ∧ σ.dropped x n = v.length ∧ Drops σ.trims x v rest := by
  unfold Drops dropped
  split
  · generalize σ.rest.drop n = w
    unfold breakLength
    split
    · exact ⟨['\n'], _, rfl, rfl, .inl rfl⟩
    · exact ⟨['\r', '\n'], _, rfl, rfl, .inr (.inl rfl)⟩
    · next hfeed hreturn =>
      refine ⟨[], w, rfl, rfl, .inr (.inr ⟨rfl, ?_, ?_⟩)⟩
      · rintro ⟨rest, rfl⟩
        exact hfeed rest rfl
      · rintro ⟨rest, rfl⟩
        exact hreturn rest rfl
  · exact ⟨[], _, rfl, rfl, rfl⟩

theorem inTag_after (b : Nat) (x : Lexeme) : ((Mode.tag b).after x).inTag = !x.endsTag := by
  cases x with
  | symbol y => cases y <;> rfl
  | _ => rfl

theorem leavesMadeOf_of_tag {b : Nat} (hmode : σ.mode = .tag b)
    (hlexeme : tagLexeme b σ.skipBlank.rest = .ok (some (x, n)))
    (htake : σ.skipBlank.takeLexeme x n = (token, τ)) (hτ : τ.LeavesMadeOf ts) :
    σ.LeavesMadeOf (token :: ts) := by
  intro before hline
  have hsplit : σ.rest = σ.rest.takeWhile Blank.isBlank ++ σ.skipBlank.rest := by
    rw [rest_skipBlank, List.takeWhile_append_dropWhile]
  have hline' : σ.skipBlank.line = lineAfter (before ++ σ.rest.takeWhile Blank.isBlank) := by
    rw [skipBlank, advance_of_rest hline hsplit]
  obtain ⟨v, cs, hv, hdropped, hdrops⟩ := σ.skipBlank.exists_drops x n
  have hlength : (σ.skipBlank.rest.take n).length = n :=
    List.length_take_of_le (length_le_of_tagLexeme hlexeme)
  have hrest : σ.skipBlank.rest = σ.skipBlank.rest.take n ++ (v ++ cs) := by
    rw [← hv, List.take_append_drop]
  rw [← hlength] at htake hdropped
  rw [takeLexeme_of_rest hline' hrest hdropped] at htake
  obtain ⟨rfl, rfl⟩ := Prod.mk.inj htake
  have hmade := hτ _ rfl
  rw [mode_skipBlank, hmode, inTag_after, List.append_assoc] at hmade
  have htagmade := MadeOf.inTag (fun c hc => List.mem_takeWhile_imp hc)
    (isSpelledAs_of_tagLexeme hlexeme) hdrops hmade
  rw [← hrest, ← hsplit] at htagmade
  rw [hmode]
  exact htagmade

/-- What is left from a scanner on is made of the tokens that it finds, one after another. -/
theorem leavesMadeOf_of_tokens (h : σ.tokens = .ok ts) : σ.LeavesMadeOf ts := by
  induction σ using tokens.induct generalizing ts with
  | case1 σ τ hnext =>
    intro before hline
    rw [tokens_of_end hnext] at h
    cases h
    rcases next_eq_none hnext with ⟨hmode, hrest⟩ | ⟨b, hmode, hblank⟩
    · rw [hmode, hrest]
      exact .textEnd
    · rw [hmode]
      exact .tagEnd hblank
  | case2 σ token τ hnext _ ih =>
    obtain ⟨later, hlater, rfl⟩ := exists_of_tokens hnext h
    rcases next_cases hnext with ⟨hmode, hne, htake⟩ | ⟨b, x, n, hmode, hlexeme, htake⟩
    · exact leavesMadeOf_of_text hmode hne htake hlater (ih hlater)
    · exact leavesMadeOf_of_tag hmode hlexeme htake (ih hlater)
  | case3 σ e τ hnext =>
    rw [tokens_of_error hnext] at h
    cases h

/-- A template that is cut into tokens to its end is made of them, from its first line on. -/
theorem madeOf_of_tokens {source : String} {trims : Bool}
    (h : (ofTemplate source trims).tokens = .ok ts) : MadeOf trims [] false source.toList ts :=
  leavesMadeOf_of_tokens h [] rfl

/-- A letter outside ASCII, escapes in a string, a dropped line break and blanks at the end. -/
theorem madeOf_of_tokens_escaped :
    (ofTemplate "\u00e9\x7b% if 'a\\n\\'' %\x7d\r\n\x7b\x7b 07\n" true).tokens =
      .ok [⟨.text "\u00e9", 1⟩, ⟨.blockStart, 1⟩, ⟨.name "if", 1⟩, ⟨.str "a\n'", 1⟩, ⟨.blockEnd, 1⟩,
        ⟨.printStart, 2⟩, ⟨.int 7, 2⟩] ∧
    MadeOf true [] false "\u00e9\x7b% if 'a\\n\\'' %\x7d\r\n\x7b\x7b 07\n".toList
      [⟨.text "\u00e9", 1⟩, ⟨.blockStart, 1⟩, ⟨.name "if", 1⟩, ⟨.str "a\n'", 1⟩, ⟨.blockEnd, 1⟩,
        ⟨.printStart, 2⟩, ⟨.int 7, 2⟩] := by
  have h : (ofTemplate "\u00e9\x7b% if 'a\\n\\'' %\x7d\r\n\x7b\x7b 07\n" true).tokens =
      .ok [⟨.text "\u00e9", 1⟩, ⟨.blockStart, 1⟩, ⟨.name "if", 1⟩, ⟨.str "a\n'", 1⟩, ⟨.blockEnd, 1⟩,
        ⟨.printStart, 2⟩, ⟨.int 7, 2⟩] := by
    decide +kernel
  exact ⟨h, madeOf_of_tokens h⟩

end Scanner

end Polyglot
