import Polyglot.Proofs.FollowedLexemes

/-!
Scanning a text that is followed by more text. As long as a delimiter is left that can end the mode
the scanner is in, it finds the same token with and without the text that follows. Without such a
delimiter the scanner is in the final stretch of its text and never leaves it.
-/
namespace Polyglot

/-- A text that follows another one in a template. -/
structure Sequel where
  text : List Char
  trims : Bool

namespace Scanner

variable {more : Sequel} {σ τ : Scanner} {token : Token}

/-- No delimiter is left at which the mode could end. -/
def IsFinal (σ : Scanner) : Prop := ∀ d ∈ σ.mode.delimiters, ¬ d <:+: σ.rest

/-- The scanner with more text at the end, on some other line. -/
def followed (σ : Scanner) (more : Sequel) (line : Nat) : Scanner :=
  { σ with rest := σ.rest ++ more.text, line := line }

/-- What follows opens no tag together with the end of the text, and does not begin with a line
break that could be dropped. -/
structure Fits (more : Sequel) (σ : Scanner) : Prop where
  apart : ∀ c e, [c] <:+ σ.rest → more.text.head? = some e → [c, e] ∉ Mode.text.delimiters
  unbroken : more.trims = true → breakLength more.text = 0
  trims : σ.trims = more.trims

theorem Fits.of_suffix (h : σ.Fits more) (hrest : τ.rest <:+ σ.rest) (htrims : τ.trims = σ.trims) :
    τ.Fits more :=
  ⟨fun c e hlast => h.apart c e (hlast.trans hrest), h.unbroken, htrims.trans h.trims⟩

theorem exists_infix_of_not_isFinal (h : ¬ σ.IsFinal) :
    ∃ d ∈ σ.mode.delimiters, d <:+: σ.rest := by
  by_contra hnone
  exact h fun d hd hwithin => hnone ⟨d, hd, hwithin⟩

theorem advance_followed {n : Nat} (h : n ≤ σ.rest.length) (more : Sequel) (line : Nat) :
    ∃ line', (σ.followed more line).advance n = (σ.advance n).followed more line' := by
  refine ⟨line + Blank.lineBreaks ((σ.rest ++ more.text).take n), ?_⟩
  simp [followed, advance, List.drop_append_of_le_length h]

theorem skipBlank_followed {c : Char} (hc : c ∈ σ.rest) (hblank : Blank.isBlank c = false)
    (more : Sequel) (line : Nat) :
    ∃ line', (σ.followed more line).skipBlank = σ.skipBlank.followed more line' := by
  have hlength : (σ.rest.takeWhile Blank.isBlank).length ≤ σ.rest.length :=
    (List.takeWhile_prefix _).length_le
  have htake : (σ.followed more line).rest.takeWhile Blank.isBlank =
      σ.rest.takeWhile Blank.isBlank := takeWhile_append_of_mem hc hblank more.text
  unfold skipBlank
  rw [htake]
  exact advance_followed hlength more line

theorem dropped_followed {n : Nat} (hn : n ≤ σ.rest.length) (hfits : σ.Fits more) (x : Lexeme)
    (line : Nat) : (σ.followed more line).dropped x n = σ.dropped x n := by
  have htrims : (σ.followed more line).trims = σ.trims := rfl
  have hdrop : (σ.followed more line).rest.drop n = σ.rest.drop n ++ more.text :=
    List.drop_append_of_le_length hn
  rw [dropped, dropped, htrims, hdrop]
  split
  · next h => exact breakLength_append (hfits.unbroken (hfits.trims ▸ h.1)) _
  · rfl

theorem takeLexeme_followed {x : Lexeme} {n : Nat} (hn : n ≤ σ.rest.length) (hfits : σ.Fits more)
    (line : Nat) : ∃ l line', (σ.followed more line).takeLexeme x n =
      (⟨x, l⟩, (σ.takeLexeme x n).2.followed more line') := by
  have hle : n + σ.dropped x n ≤ σ.rest.length := by
    have hbreak := breakLength_le (σ.rest.drop n)
    rw [List.length_drop] at hbreak
    unfold dropped
    split <;> omega
  obtain ⟨line', hadvance⟩ := advance_followed hle more line
  refine ⟨line, line', ?_⟩
  rw [takeLexeme_eq, dropped_followed hn hfits, hadvance]
  rfl

theorem rest_takeLexeme_suffix (σ : Scanner) (x : Lexeme) (n : Nat) :
    (σ.takeLexeme x n).2.rest <:+ σ.rest :=
  List.drop_suffix _ _

theorem rest_skipBlank_suffix (σ : Scanner) : σ.skipBlank.rest <:+ σ.rest :=
  List.drop_suffix _ _

theorem Fits.next (hfits : σ.Fits more) (h : σ.next = (.ok (some token), τ)) : τ.Fits more := by
  rcases next_cases h with ⟨_, _, htake⟩ | ⟨b, x, n, _, _, htake⟩
  · obtain rfl : _ = τ := congrArg Prod.snd htake
    exact hfits.of_suffix (rest_takeLexeme_suffix _ _ _) rfl
  · obtain rfl : _ = τ := congrArg Prod.snd htake
    exact hfits.of_suffix ((rest_takeLexeme_suffix _ _ _).trans (rest_skipBlank_suffix σ)) rfl

/-- The delimiter at which a tag can end is still there after the blanks. -/
theorem within_skipBlank {b : Nat} {d : List Char} (hd : d ∈ (Mode.tag b).delimiters)
    (h : d <:+: σ.rest) : d <:+: σ.skipBlank.rest := by
  rw [rest_skipBlank]
  simp only [Mode.delimiters, List.mem_cons, List.not_mem_nil, or_false] at hd
  rcases hd with rfl | rfl
  · exact within_dropWhile (by decide) h
  · exact within_dropWhile (by decide) h

theorem skipBlank_followed_of_within {b : Nat} {d : List Char} (hd : d ∈ (Mode.tag b).delimiters)
    (h : d <:+: σ.rest) (more : Sequel) (line : Nat) :
    ∃ line', (σ.followed more line).skipBlank = σ.skipBlank.followed more line' := by
  have hmem : '\x7d' ∈ d := by
    simp only [Mode.delimiters, List.mem_cons, List.not_mem_nil, or_false] at hd
    rcases hd with rfl | rfl <;> decide
  exact skipBlank_followed (h.subset hmem) (by decide) more line

/-- As long as the mode can end, the next token is the same whatever follows, but for its line. -/
theorem next_followed (hfinal : ¬ σ.IsFinal) (hfits : σ.Fits more)
    (h : σ.next = (.ok (some token), τ)) (line : Nat) :
    ∃ l line', (σ.followed more line).next =
      (.ok (some ⟨token.lexeme, l⟩), τ.followed more line') := by
  obtain ⟨d, hd, hwithin⟩ := exists_infix_of_not_isFinal hfinal
  rcases next_cases h with ⟨hmode, hrest, htake⟩ | ⟨b, x, n, hmode, hlexeme, htake⟩
  · rw [hmode] at hd
    have hmode' : (σ.followed more line).mode = .text := hmode
    have hrest' : (σ.followed more line).rest ≠ [] := by simp [followed, hrest]
    have htext : textLexeme (σ.followed more line).rest = textLexeme σ.rest :=
      textLexeme_append_of_within hd hwithin more.text
    obtain ⟨l, line', hfollowed⟩ := takeLexeme_followed (x := (textLexeme σ.rest).1)
      (length_le_of_textLexeme σ.rest) hfits line
    rw [htake] at hfollowed
    obtain rfl : _ = token := congrArg Prod.fst htake
    rw [next_of_text hmode' hrest', htext, hfollowed]
    exact ⟨l, line', rfl⟩
  · rw [hmode] at hd
    have hmode' : (σ.followed more line).mode = .tag b := hmode
    obtain ⟨line', hskip⟩ := skipBlank_followed_of_within hd hwithin more line
    have hlexeme' : tagLexeme b (σ.followed more line).skipBlank.rest = .ok (some (x, n)) := by
      rw [hskip]
      exact tagLexeme_append hd (within_skipBlank hd hwithin) hlexeme more.text
    have hfits' : σ.skipBlank.Fits more := hfits.of_suffix (rest_skipBlank_suffix σ) rfl
    obtain ⟨l, line'', hfollowed⟩ := takeLexeme_followed (x := x)
      (length_le_of_tagLexeme hlexeme) hfits' line'
    rw [htake] at hfollowed
    obtain rfl : _ = token := congrArg Prod.fst htake
    rw [next_of_tag hmode' hlexeme', hskip, hfollowed]
    exact ⟨l, line'', rfl⟩

/-- Where the mode can still end, there is something to read. -/
theorem next_ne_none (hfinal : ¬ σ.IsFinal) : σ.next ≠ (.ok none, τ) := by
  intro h
  obtain ⟨d, hd, hwithin⟩ := exists_infix_of_not_isFinal hfinal
  unfold next at h
  split at h
  · split at h
    · next hempty =>
      have hlength := two_le_length_of_within hd hwithin
      rw [List.isEmpty_iff.1 hempty] at hlength
      cases hlength
    · cases h
  · next b hmode =>
    rw [hmode] at hd
    have hlength := two_le_length_of_within hd (within_skipBlank hd hwithin)
    dsimp only at h
    split at h
    · next hnone =>
      rw [eq_nil_of_tagLexeme hnone] at hlength
      cases hlength
    · cases h
    · cases h

theorem IsFinal.of_suffix (hfinal : σ.IsFinal) (hrest : τ.rest <:+ σ.rest)
    (hmode : τ.mode.delimiters = σ.mode.delimiters) : τ.IsFinal := by
  intro d hd hwithin
  rw [hmode] at hd
  exact hfinal d hd (hwithin.trans hrest.isInfix)

/-- In the final stretch the mode does not end. -/
theorem IsFinal.next (hfinal : σ.IsFinal) (h : σ.next = (.ok (some token), τ)) :
    τ.IsFinal ∧ token.lexeme.endsTag = false := by
  rcases next_cases h with ⟨hmode, _, htake⟩ | ⟨b, x, n, hmode, hlexeme, htake⟩
  · have hnot : ∀ d ∈ Mode.text.delimiters, ¬ d <+: σ.rest := fun d hd hstarts =>
      hfinal d (hmode ▸ hd) hstarts.isInfix
    rw [textLexeme_of_not_starts hnot] at htake
    obtain rfl : _ = token := congrArg Prod.fst htake
    obtain rfl : _ = τ := congrArg Prod.snd htake
    have hafter : (σ.mode.after (.text (String.ofList (plain σ.rest)))).delimiters =
        σ.mode.delimiters := by
      rw [hmode]
      rfl
    exact ⟨hfinal.of_suffix (rest_takeLexeme_suffix _ _ _) hafter, rfl⟩
  · have hends : x.endsTag = false := by
      by_contra hx
      obtain ⟨d, hd, hstarts⟩ := starts_of_endsTag hlexeme (by simpa using hx)
      have hwithin : d <:+: σ.rest := hstarts.isInfix.trans (rest_skipBlank_suffix σ).isInfix
      exact hfinal d (hmode ▸ hd) hwithin
    obtain rfl : _ = token := congrArg Prod.fst htake
    obtain rfl : _ = τ := congrArg Prod.snd htake
    have hafter : (σ.mode.after x).delimiters = σ.mode.delimiters := by
      rw [hmode]
      exact delimiters_after_tag hends
    have hsuffix := (rest_takeLexeme_suffix σ.skipBlank x n).trans (rest_skipBlank_suffix σ)
    exact ⟨hfinal.of_suffix hsuffix hafter, hends⟩

theorem mode_next (h : σ.next = (.ok (some token), τ)) : τ.mode = σ.mode.after token.lexeme := by
  rcases next_cases h with ⟨_, _, htake⟩ | ⟨b, x, n, _, _, htake⟩
  · obtain rfl : _ = token := congrArg Prod.fst htake
    obtain rfl : _ = τ := congrArg Prod.snd htake
    rfl
  · obtain rfl : _ = token := congrArg Prod.fst htake
    obtain rfl : _ = τ := congrArg Prod.snd htake
    rfl

/-- After the end of a tag the scanner is outside tags. -/
theorem mode_of_endsTag (h : σ.next = (.ok (some token), τ))
    (htoken : token.lexeme.endsTag = true) : τ.mode = .text := by
  rw [mode_next h]
  cases hx : token.lexeme with
  | blockEnd => cases σ.mode <;> rfl
  | printEnd => cases σ.mode <;> rfl
  | _ => rw [hx] at htoken; cases htoken

/-- The text up to the first tag of a name is the same whatever follows, provided that the tag has
an end. -/
theorem rawUntil_followed {name content : String} (hopen : '\x7b' ∉ name.toList)
    (hclose : '\x7d' ∉ name.toList) (h : σ.rawUntil name = (some content, τ))
    (hfinal : ¬ τ.IsFinal) (more : Sequel) (line : Nat) :
    ∃ line', (σ.followed more line).rawUntil name = (some content, τ.followed more line') := by
  unfold rawUntil at h
  split at h
  · next n hn =>
    cases h
    obtain ⟨d, hd, hwithin⟩ := exists_infix_of_not_isFinal hfinal
    have hmem : '\x7d' ∈ σ.rest.drop (n + 2) := by
      refine hwithin.subset ?_
      simp only [Mode.delimiters, List.mem_cons, List.not_mem_nil, or_false] at hd
      rcases hd with rfl | rfl <;> decide
    have hn' : lengthBefore name.toList (σ.followed more line).rest = some n :=
      lengthBefore_append_of_mem hopen hclose hn hmem more.text
    have hle := length_le_of_lengthBefore hn
    obtain ⟨line', hadvance⟩ := advance_followed hle more line
    have htake : (σ.followed more line).rest.take n = σ.rest.take n :=
      List.take_append_of_le_length (by omega)
    refine ⟨line', ?_⟩
    simp only [rawUntil, hn', htake, hadvance]
    rfl
  · cases h

theorem rest_rawUntil_suffix {name content : String} (h : σ.rawUntil name = (some content, τ)) :
    τ.rest <:+ σ.rest ∧ τ.trims = σ.trims := by
  unfold rawUntil at h
  split at h
  · cases h
    exact ⟨List.drop_suffix _ _, rfl⟩
  · cases h

theorem not_isFinal_of_rawUntil {name content : String} (hmode : σ.mode = .text)
    (h : σ.rawUntil name = (some content, τ)) : ¬ σ.IsFinal := by
  intro hfinal
  unfold rawUntil at h
  split at h
  · next n hn =>
    have hopen : ['\x7b', '%'] ∈ σ.mode.delimiters := by
      rw [hmode]
      exact List.mem_cons_self
    exact hfinal _ hopen (within_of_lengthBefore hn)
  · cases h

end Scanner

end Polyglot
