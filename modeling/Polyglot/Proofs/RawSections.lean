import Polyglot.Proofs.FollowedLexemes
import Polyglot.Proofs.WrittenLexemes

/-!
Where a raw section ends. It is the text in front of the first block tag of a given name, and
nothing in that text counts: no other tag, no print, no quote and no longer name. The scanner goes
on inside that tag, so that the name is its next token; if there is no such tag, it stays where it
is.
-/
namespace Polyglot.Scanner

/-- A text begins with a block tag of a given name. Blanks may stand in front of the name, and what
stands behind it does not make it longer. -/
def StartsBlock (name cs : List Char) : Prop :=
  ∃ ws rest, (∀ c ∈ ws, Blank.isBlank c = true) ∧ EndsWord rest ∧
    cs = '\x7b' :: '%' :: (ws ++ (name ++ rest))

/-- A text is what stands in front of the first block tag of a given name. -/
structure IsBeforeBlock (name cs w : List Char) : Prop where
  starts : w <+: cs
  block : StartsBlock name (cs.drop w.length)
  first : ∀ k < w.length, ¬ StartsBlock name (cs.drop k)

theorem not_startsBlock_nil {name : List Char} : ¬ StartsBlock name [] := by
  rintro ⟨ws, rest, _, _, h⟩
  cases h

theorem not_startsBlock_cons {name cs : List Char} {c : Char}
    (h : ∀ rest, c = '\x7b' → cs = '%' :: rest → False) : ¬ StartsBlock name (c :: cs) := by
  rintro ⟨ws, rest, _, _, heq⟩
  obtain ⟨hc, hcs⟩ := List.cons.inj heq
  exact h _ hc hcs

section

variable {tag : String} (htag : isIdentifier tag = true) {cs : List Char} {n : Nat}
include htag

/-- An identifier does not begin with a blank, so no blank behind those in front of it is
dropped. -/
theorem dropWhile_isBlank_append {ws : List Char} (hws : ∀ c ∈ ws, Blank.isBlank c = true)
    (cs : List Char) : (ws ++ (tag.toList ++ cs)).dropWhile Blank.isBlank = tag.toList ++ cs := by
  unfold isIdentifier at htag
  split at htag
  · cases htag
  · next c w htoList =>
    rw [Bool.and_eq_true] at htag
    have hc := not_isBlank_of_isNameChar (isNameChar_of_isNameStart htag.1)
    rw [List.dropWhile_append_of_pos hws, htoList, List.cons_append,
      List.dropWhile_cons_of_neg (by simp [hc])]

theorem opensTag_iff : opensTag tag.toList cs = true ↔
    ∃ ws rest, (∀ c ∈ ws, Blank.isBlank c = true) ∧ EndsWord rest ∧
      cs = ws ++ (tag.toList ++ rest) := by
  have hends : ∀ rest : List Char, (!rest.head?.any isNameChar) = true ↔ EndsWord rest := by
    intro rest
    cases rest <;> simp [EndsWord]
  unfold opensTag
  dsimp only
  rw [Bool.and_eq_true, List.isPrefixOf_iff_prefix, hends]
  constructor
  · rintro ⟨⟨rest, hrest⟩, hword⟩
    rw [← hrest, List.drop_left] at hword
    refine ⟨cs.takeWhile Blank.isBlank, rest, fun c hc => List.mem_takeWhile_imp hc, hword, ?_⟩
    rw [hrest, List.takeWhile_append_dropWhile]
  · rintro ⟨ws, rest, hws, hword, rfl⟩
    rw [dropWhile_isBlank_append htag hws, List.drop_left]
    exact ⟨List.prefix_append tag.toList rest, hword⟩

theorem startsBlock_iff : StartsBlock tag.toList ('\x7b' :: '%' :: cs) ↔
    opensTag tag.toList cs = true := by
  simp only [StartsBlock, opensTag_iff htag, List.cons.injEq, true_and]

/-- At the length that is found a block tag begins, and none does before it. -/
theorem startsBlock_of_lengthBefore (h : lengthBefore tag.toList cs = some n) :
    StartsBlock tag.toList (cs.drop n) ∧ ∀ k < n, ¬ StartsBlock tag.toList (cs.drop k) := by
  fun_induction lengthBefore tag.toList cs generalizing n with
  | case1 => cases h
  | case2 rest hopens =>
    cases h
    exact ⟨(startsBlock_iff htag).2 hopens, fun k hk => absurd hk (Nat.not_lt_zero k)⟩
  | case3 rest hopens ih =>
    obtain ⟨m, hm, rfl⟩ := Option.map_eq_some_iff.1 h
    obtain ⟨hblock, hfirst⟩ := ih hm
    refine ⟨hblock, fun k hk => ?_⟩
    rcases k with _ | _ | k
    · exact fun hstarts => hopens ((startsBlock_iff htag).1 hstarts)
    · exact not_startsBlock_cons fun _ hc => absurd hc (by decide)
    · exact hfirst k (by omega)
  | case4 c rest hnot ih =>
    obtain ⟨m, hm, rfl⟩ := Option.map_eq_some_iff.1 h
    obtain ⟨hblock, hfirst⟩ := ih hm
    refine ⟨hblock, fun k hk => ?_⟩
    cases k with
    | zero => exact not_startsBlock_cons hnot
    | succ k => exact hfirst k (by omega)

/-- Where no length is found, no block tag begins anywhere. -/
theorem not_startsBlock_of_lengthBefore (h : lengthBefore tag.toList cs = none) (k : Nat) :
    ¬ StartsBlock tag.toList (cs.drop k) := by
  fun_induction lengthBefore tag.toList cs generalizing k with
  | case1 =>
    rw [List.drop_nil]
    exact not_startsBlock_nil
  | case2 => cases h
  | case3 rest hopens ih =>
    rcases k with _ | _ | k
    · exact fun hstarts => hopens ((startsBlock_iff htag).1 hstarts)
    · exact not_startsBlock_cons fun _ hc => absurd hc (by decide)
    · exact ih (Option.map_eq_none_iff.1 h) k
  | case4 c rest hnot ih =>
    cases k with
    | zero => exact not_startsBlock_cons hnot
    | succ k => exact ih (Option.map_eq_none_iff.1 h) k

theorem lengthBefore_eq_some_iff : lengthBefore tag.toList cs = some n ↔
    StartsBlock tag.toList (cs.drop n) ∧ ∀ k < n, ¬ StartsBlock tag.toList (cs.drop k) := by
  refine ⟨startsBlock_of_lengthBefore htag, fun ⟨hblock, hfirst⟩ => ?_⟩
  cases h : lengthBefore tag.toList cs with
  | none => exact absurd hblock (not_startsBlock_of_lengthBefore htag h n)
  | some m =>
    -- of two first places neither can be the earlier one
    obtain ⟨hblock', hfirst'⟩ := startsBlock_of_lengthBefore htag h
    rcases Nat.lt_trichotomy m n with hlt | rfl | hlt
    · exact absurd hblock' (hfirst m hlt)
    · rfl
    · exact absurd hblock (hfirst' n hlt)

theorem rawUntil_eq_some_iff (σ : Scanner) (s : String) : (σ.rawUntil tag).1 = some s ↔
    IsBeforeBlock tag.toList σ.rest s.toList := by
  constructor
  · intro h
    unfold rawUntil at h
    split at h
    · next n hn =>
      obtain rfl := Option.some.inj h
      have hlength : (σ.rest.take n).length = n :=
        List.length_take_of_le (Nat.le_of_add_right_le (length_le_of_lengthBefore hn))
      obtain ⟨hblock, hfirst⟩ := startsBlock_of_lengthBefore htag hn
      rw [String.toList_ofList]
      refine ⟨List.take_prefix n σ.rest, ?_, ?_⟩
      · rwa [hlength]
      · rwa [hlength]
    · cases h
  · rintro ⟨hstarts, hblock, hfirst⟩
    have hn := (lengthBefore_eq_some_iff htag).2 ⟨hblock, hfirst⟩
    simp only [rawUntil, hn]
    rw [← List.prefix_iff_eq_take.1 hstarts, String.ofList_toList]

/-- Behind the opening delimiter of a block tag its name is the next token. -/
theorem next_of_block {ws rest : List Char} (hws : ∀ c ∈ ws, Blank.isBlank c = true)
    (hrest : EndsWord rest) (line : Nat) (trims : Bool) :
    ∃ l υ, (Scanner.mk (ws ++ (tag.toList ++ rest)) line (.tag 0) trims).next =
      (.ok (some ⟨.name tag, l⟩), υ) := by
  have hspells := Spells.blank hws (Spells.name htag 0 hrest)
  obtain ⟨l, υ, hnext, _⟩ := hspells line trims
  rw [List.append_assoc] at hnext
  exact ⟨l, υ, hnext⟩

/-- The scanner goes on right behind the opening delimiter, on the line of that delimiter. -/
theorem rawUntil_of_some {σ τ : Scanner} {s : String} (h : σ.rawUntil tag = (some s, τ)) :
    σ.rest = s.toList ++ '\x7b' :: '%' :: τ.rest ∧
      τ.line = σ.line + Blank.lineBreaks s.toList ∧
      ∃ l υ, τ.next = (.ok (some ⟨.name tag, l⟩), υ) := by
  unfold rawUntil at h
  split at h
  · next n hn =>
    obtain ⟨⟨ws, rest, hws, hrest, hblock⟩, _⟩ := startsBlock_of_lengthBefore htag hn
    have hdrop : σ.rest.drop (n + 2) = ws ++ (tag.toList ++ rest) := by
      rw [← List.drop_drop, hblock]
      rfl
    have htake : σ.rest.take (n + 2) = σ.rest.take n ++ ['\x7b', '%'] := by
      rw [List.take_add, hblock]
      rfl
    cases h
    simp only [advance, hdrop, htake, Blank.lineBreaks_append, String.toList_ofList]
    refine ⟨?_, rfl, next_of_block htag hws hrest _ _⟩
    rw [← hblock, List.take_append_drop]
  · cases h

end

/-- A raw section is the text in front of the first block tag of its end's name, whatever state the
scanner is in. It is taken as it stands, with its line breaks counted, and the name is the next
token; without such a tag the scanner is left as it was. -/
theorem rawUntil_first {tag : String} (htag : isIdentifier tag = true) (σ : Scanner) :
    (∀ s, (σ.rawUntil tag).1 = some s ↔ IsBeforeBlock tag.toList σ.rest s.toList) ∧
    (∀ s τ, σ.rawUntil tag = (some s, τ) →
      σ.rest = s.toList ++ '\x7b' :: '%' :: τ.rest ∧
      τ.line = σ.line + Blank.lineBreaks s.toList ∧
      ∃ l υ, τ.next = (.ok (some ⟨.name tag, l⟩), υ)) ∧
    ∀ τ, σ.rawUntil tag = (none, τ) → τ = σ := by
  refine ⟨rawUntil_eq_some_iff htag σ, fun s τ h => rawUntil_of_some htag h, fun τ h => ?_⟩
  unfold rawUntil at h
  split at h
  · cases h
  · exact (Prod.mk.inj h).2.symm

/-- A longer name, a tag and a quote do not end the section; a blank outside ASCII may stand in
front of the name that does. -/
theorem rawUntil_first_longer :
    isIdentifier "endtrans" = true ∧
    IsBeforeBlock "endtrans".toList
      "\x7b% endtransx %\x7d'\n\x7b\x7b%\u00a0endtrans%\x7d".toList
      "\x7b% endtransx %\x7d'\n\x7b".toList ∧
    ((ofTemplate "\x7b% endtransx %\x7d'\n\x7b\x7b%\u00a0endtrans%\x7d" true).rawUntil
      "endtrans").2.line = 2 := by
  have htag : isIdentifier "endtrans" = true := by decide
  have hfirst := rawUntil_first htag
    (ofTemplate "\x7b% endtransx %\x7d'\n\x7b\x7b%\u00a0endtrans%\x7d" true)
  refine ⟨htag, (hfirst.1 _).1 ?_, ?_⟩
  · decide +kernel
  · exact ((hfirst.2.1 "\x7b% endtransx %\x7d'\n\x7b" _ (by rfl)).2.1).trans (by decide)

end Polyglot.Scanner
