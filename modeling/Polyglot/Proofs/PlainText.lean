import Mathlib.Data.List.Infix
import Polyglot.Proofs.ScannerSteps

/-!
Plain text. Outside tags everything up to the next opening delimiter is one token. A text that is
followed by more text has the same tokens up to its last delimiter, and goes on in what follows
after it, unless the two open a tag where they meet.
-/
namespace Polyglot

namespace Mode

/-- The delimiters at which a mode can end. -/
def delimiters : Mode → List (List Char)
  | text => [['\x7b', '%'], ['\x7b', '\x7b']]
  | tag _ => [['%', '\x7d'], ['\x7d', '\x7d']]

end Mode

namespace Scanner

variable {cs more : List Char} {σ : Scanner}

theorem length_of_mem_delimiters {m : Mode} {d : List Char} (h : d ∈ m.delimiters) :
    d.length = 2 := by
  cases m <;> simp only [Mode.delimiters, List.mem_cons, List.not_mem_nil, or_false] at h <;>
    rcases h with rfl | rfl <;> rfl

/-- A delimiter at the start of two texts is one at the start of the first, if that is no shorter
than the delimiter. -/
theorem starts_of_starts_append {m : Mode} {d : List Char} (hd : d ∈ m.delimiters)
    (hlength : 2 ≤ cs.length) (h : d <+: cs ++ more) : d <+: cs := by
  have hle : d.length ≤ cs.length := by
    rw [length_of_mem_delimiters hd]
    exact hlength
  exact List.prefix_of_prefix_length_le h (List.prefix_append cs more) hle

theorem two_le_length_of_within {m : Mode} {d : List Char} (hd : d ∈ m.delimiters)
    (h : d <:+: cs) : 2 ≤ cs.length := by
  have hle := h.length_le
  rwa [length_of_mem_delimiters hd] at hle

theorem plain_of_starts {d : List Char} (hd : d ∈ Mode.text.delimiters) (h : d <+: cs) :
    plain cs = [] := by
  obtain ⟨w, rfl⟩ := h
  simp only [Mode.delimiters, List.mem_cons, List.not_mem_nil, or_false] at hd
  rcases hd with rfl | rfl <;> rfl

theorem plain_cons_of_not_starts {c : Char}
    (h : ∀ d ∈ Mode.text.delimiters, ¬ d <+: c :: cs) : plain (c :: cs) = c :: plain cs := by
  rw [plain]
  · rintro rest rfl rfl
    exact h _ List.mem_cons_self (List.prefix_append _ rest)
  · rintro rest rfl rfl
    exact h _ (List.mem_cons_of_mem _ List.mem_cons_self) (List.prefix_append _ rest)

/-- The text before a tag is the same whatever follows the tag. -/
theorem plain_append_of_within {d : List Char} (hd : d ∈ Mode.text.delimiters) (h : d <:+: cs)
    (more : List Char) : plain (cs ++ more) = plain cs := by
  induction cs with
  | nil =>
    rw [List.infix_nil.1 h] at hd
    exact absurd hd (by decide)
  | cons c cs ih =>
    by_cases hopens : ∃ d ∈ Mode.text.delimiters, d <+: c :: cs
    · obtain ⟨d', hd', hstarts⟩ := hopens
      rw [plain_of_starts hd' hstarts, plain_of_starts hd' (hstarts.trans (List.prefix_append _ _))]
    · have hnot : ∀ d ∈ Mode.text.delimiters, ¬ d <+: c :: cs :=
        fun d hd hstarts => hopens ⟨d, hd, hstarts⟩
      have hwithin : d <:+: cs := (List.infix_cons_iff.1 h).resolve_left (hnot d hd)
      have hmore : ∀ d ∈ Mode.text.delimiters, ¬ d <+: c :: (cs ++ more) := fun d' hd' hstarts =>
        hnot d' hd' (starts_of_starts_append hd' (two_le_length_of_within hd h) hstarts)
      rw [List.cons_append, plain_cons_of_not_starts hmore, plain_cons_of_not_starts hnot,
        ih hwithin]

/-- The text before a tag ends where the tag opens. -/
theorem exists_starts_drop_plain {d : List Char} (hd : d ∈ Mode.text.delimiters) (h : d <:+: cs) :
    ∃ d' ∈ Mode.text.delimiters, d' <+: cs.drop (plain cs).length := by
  induction cs with
  | nil =>
    rw [List.infix_nil.1 h] at hd
    exact absurd hd (by decide)
  | cons c cs ih =>
    by_cases hopens : ∃ d ∈ Mode.text.delimiters, d <+: c :: cs
    · obtain ⟨d', hd', hstarts⟩ := hopens
      rw [plain_of_starts hd' hstarts]
      exact ⟨d', hd', hstarts⟩
    · have hnot : ∀ d ∈ Mode.text.delimiters, ¬ d <+: c :: cs :=
        fun d hd hstarts => hopens ⟨d, hd, hstarts⟩
      rw [plain_cons_of_not_starts hnot, List.length_cons, List.drop_succ_cons]
      exact ih ((List.infix_cons_iff.1 h).resolve_left (hnot d hd))

/-- A text with no tag in it goes on in the text that follows, unless the two open a tag where they
meet. -/
theorem plain_append_of_not_within {w : List Char}
    (hw : ∀ d ∈ Mode.text.delimiters, ¬ d <:+: w)
    (hseam : ∀ c e, [c] <:+ w → cs.head? = some e → [c, e] ∉ Mode.text.delimiters) :
    plain (w ++ cs) = w ++ plain cs := by
  induction w with
  | nil => rfl
  | cons c w ih =>
    have hnot : ∀ d ∈ Mode.text.delimiters, ¬ d <+: c :: (w ++ cs) := by
      intro d hd hstarts
      cases w with
      | cons e w =>
        exact hw d hd (starts_of_starts_append hd (by simp) hstarts).isInfix
      | nil =>
        have hlength := length_of_mem_delimiters hd
        obtain ⟨v, hv⟩ := hstarts
        match d, hlength with
        | [c', e], _ =>
          obtain ⟨rfl, rfl⟩ := List.cons.inj hv
          exact hseam c' e (List.suffix_refl _) rfl hd
    have htail : plain (w ++ cs) = w ++ plain cs := by
      refine ih (fun d hd h => hw d hd (h.trans (List.suffix_cons c w).isInfix)) ?_
      exact fun c' e hlast => hseam c' e (hlast.trans (List.suffix_cons c w))
    rw [List.cons_append, plain_cons_of_not_starts hnot, htail, List.cons_append]

theorem plain_of_not_within {w : List Char} (hw : ∀ d ∈ Mode.text.delimiters, ¬ d <:+: w) :
    plain w = w := by
  have h : plain (w ++ []) = w ++ plain [] := plain_append_of_not_within hw fun _ _ _ h => nomatch h
  simpa [plain] using h

theorem isPrefix_plain (cs : List Char) : plain cs <+: cs := by
  fun_induction plain cs with
  | case1 => exact List.nil_prefix
  | case2 => exact List.nil_prefix
  | case3 => exact List.nil_prefix
  | case4 c rest _ _ ih => exact List.prefix_cons_inj c |>.2 ih

theorem not_within_plain {d : List Char} (hd : d ∈ Mode.text.delimiters) (cs : List Char) :
    ¬ d <:+: plain cs := by
  induction cs with
  | nil =>
    intro h
    rw [plain, List.infix_nil] at h
    rw [h] at hd
    exact absurd hd (by decide)
  | cons c cs ih =>
    by_cases hopens : ∃ d ∈ Mode.text.delimiters, d <+: c :: cs
    · obtain ⟨d', hd', hstarts⟩ := hopens
      intro h
      rw [plain_of_starts hd' hstarts, List.infix_nil] at h
      rw [h] at hd
      exact absurd hd (by decide)
    · have hnot : ∀ d ∈ Mode.text.delimiters, ¬ d <+: c :: cs :=
        fun d hd hstarts => hopens ⟨d, hd, hstarts⟩
      rw [plain_cons_of_not_starts hnot, List.infix_cons_iff]
      rintro (hstarts | hwithin)
      · exact hnot d hd (hstarts.trans (List.prefix_cons_inj c |>.2 (isPrefix_plain cs)))
      · exact ih hwithin

/-- After the text before a tag the template is at its end or at the tag. -/
theorem ends_or_starts_drop_plain (cs : List Char) :
    cs.drop (plain cs).length = [] ∨
      ∃ d ∈ Mode.text.delimiters, d <+: cs.drop (plain cs).length := by
  by_cases hwithin : ∃ d ∈ Mode.text.delimiters, d <:+: cs
  · obtain ⟨d, hd, hwithin⟩ := hwithin
    exact .inr (exists_starts_drop_plain hd hwithin)
  · have hplain : plain cs = cs :=
      plain_of_not_within fun d hd hwithin' => hwithin ⟨d, hd, hwithin'⟩
    rw [hplain, List.drop_length]
    exact .inl rfl

theorem textLexeme_of_not_starts (h : ∀ d ∈ Mode.text.delimiters, ¬ d <+: cs) :
    textLexeme cs = (.text (String.ofList (plain cs)), (plain cs).length) := by
  unfold textLexeme
  split
  · exact absurd (List.prefix_append _ _) (h ['\x7b', '%'] List.mem_cons_self)
  · exact absurd (List.prefix_append _ _) (h ['\x7b', '\x7b'] (by simp [Mode.delimiters]))
  · rfl

theorem textLexeme_cases (cs : List Char) :
    (∃ rest, cs = '\x7b' :: '%' :: rest ∧ textLexeme cs = (.blockStart, 2)) ∨
    (∃ rest, cs = '\x7b' :: '\x7b' :: rest ∧ textLexeme cs = (.printStart, 2)) ∨
    (∀ d ∈ Mode.text.delimiters, ¬ d <+: cs) ∧
      textLexeme cs = (.text (String.ofList (plain cs)), (plain cs).length) := by
  by_cases hopens : ∃ d ∈ Mode.text.delimiters, d <+: cs
  · obtain ⟨d, hd, rest, rfl⟩ := hopens
    simp only [Mode.delimiters, List.mem_cons, List.not_mem_nil, or_false] at hd
    rcases hd with rfl | rfl
    · exact .inl ⟨rest, rfl, rfl⟩
    · exact .inr (.inl ⟨rest, rfl, rfl⟩)
  · have hnot : ∀ d ∈ Mode.text.delimiters, ¬ d <+: cs :=
      fun d hd hstarts => hopens ⟨d, hd, hstarts⟩
    exact .inr (.inr ⟨hnot, textLexeme_of_not_starts hnot⟩)

theorem textLexeme_append_of_within {d : List Char} (hd : d ∈ Mode.text.delimiters)
    (h : d <:+: cs) (more : List Char) : textLexeme (cs ++ more) = textLexeme cs := by
  by_cases hopens : ∃ d ∈ Mode.text.delimiters, d <+: cs
  · obtain ⟨d', hd', w, rfl⟩ := hopens
    simp only [Mode.delimiters, List.mem_cons, List.not_mem_nil, or_false] at hd'
    rcases hd' with rfl | rfl <;> rfl
  · have hnot : ∀ d ∈ Mode.text.delimiters, ¬ d <+: cs :=
      fun d hd hstarts => hopens ⟨d, hd, hstarts⟩
    have hmore : ∀ d ∈ Mode.text.delimiters, ¬ d <+: cs ++ more := fun d' hd' hstarts =>
      hnot d' hd' (starts_of_starts_append hd' (two_le_length_of_within hd h) hstarts)
    rw [textLexeme_of_not_starts hnot, textLexeme_of_not_starts hmore,
      plain_append_of_within hd h]

theorem length_le_of_textLexeme (cs : List Char) : (textLexeme cs).2 ≤ cs.length := by
  unfold textLexeme
  split
  · simp
  · simp
  · exact (isPrefix_plain _).length_le

/-- Where a tag opens there is no text. -/
theorem lexeme_ne_text_of_starts (hmode : σ.mode = .text) {d : List Char}
    (hd : d ∈ Mode.text.delimiters) (h : d <+: σ.rest) {token : Token} {τ : Scanner}
    (hnext : σ.next = (.ok (some token), τ)) (content : String) : token.lexeme ≠ .text content := by
  obtain ⟨w, hw⟩ := h
  have hrest : σ.rest ≠ [] := by
    intro hnil
    rw [hnil] at hw
    rw [List.append_eq_nil_iff.1 hw |>.1] at hd
    exact absurd hd (by decide)
  rw [next_of_text hmode hrest, ← hw] at hnext
  cases hnext
  simp only [Mode.delimiters, List.mem_cons, List.not_mem_nil, or_false] at hd
  rcases hd with rfl | rfl
  · exact Lexeme.noConfusion
  · exact Lexeme.noConfusion

/-- The scanner after the text up to the next tag. -/
def afterText (σ : Scanner) : Scanner := σ.advance (plain σ.rest).length

theorem mode_afterText (hmode : σ.mode = .text) : σ.afterText.mode = .text := hmode

theorem next_of_plain (hmode : σ.mode = .text) (hplain : plain σ.rest ≠ []) :
    σ.next = (.ok (some ⟨.text (String.ofList (plain σ.rest)), σ.line⟩), σ.afterText) := by
  have hrest : σ.rest ≠ [] := fun hnil => hplain (by rw [hnil]; rfl)
  have hnot : ∀ d ∈ Mode.text.delimiters, ¬ d <+: σ.rest := fun d hd hstarts =>
    hplain (plain_of_starts hd hstarts)
  have hafter : σ.mode.after (.text (String.ofList (plain σ.rest))) = σ.mode := by
    rw [hmode]
    rfl
  have htake : σ.takeLexeme (.text (String.ofList (plain σ.rest))) (plain σ.rest).length =
      (⟨.text (String.ofList (plain σ.rest)), σ.line⟩, σ.afterText) := by
    rw [takeLexeme_eq, dropped_of_ne (fun h => by cases h), hafter]
    rfl
  simp only [next_of_text hmode hrest, textLexeme_of_not_starts hnot, htake]

end Scanner

end Polyglot
