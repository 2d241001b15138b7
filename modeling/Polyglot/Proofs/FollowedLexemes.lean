import Mathlib.Data.List.TakeWhile
import Polyglot.Proofs.SourceCursors

/-!
Lexemes of a tag that is followed by more text. Where a delimiter is left at which the tag can end,
the lexeme at the start of a text is told by the characters up to that delimiter, so that it is the
same whatever follows; so is the place of the first tag of a given name.
-/
namespace Polyglot

namespace Lexeme

/-- The lexemes at which a tag ends. -/
def endsTag : Lexeme → Bool
  | blockEnd => true
  | printEnd => true
  | _ => false

end Lexeme

namespace Literal

theorem scan_cons {quote c : Char} (h : c ≠ '\\') (cs : List Char) :
    scan quote (c :: cs) =
      if c = quote then some ([], 1) else (scan quote cs).map fun r => (c :: r.1, r.2 + 1) := by
  rw [scan]
  · exact fun hc _ => h hc
  · exact fun _ _ hc _ => h hc

/-- No case of the scan but the escapes lets a backslash through. -/
theorem ne_backslash {c : Char} {rest : List Char} (hlast : c = '\\' → rest = [] → False)
    (hescape : ∀ d rest', c = '\\' → rest = d :: rest' → False) : c ≠ '\\' := by
  intro hc
  cases rest with
  | nil => exact hlast hc rfl
  | cons d rest => exact hescape d rest hc rfl

/-- A literal ends at its closing quote, whatever follows it. -/
theorem scan_append {quote : Char} {cs : List Char} {r : List Char × Nat}
    (h : scan quote cs = some r) (more : List Char) : scan quote (cs ++ more) = some r := by
  fun_induction scan quote cs generalizing r with
  | case1 => cases h
  | case2 => cases h
  | case3 c rest ih =>
    obtain ⟨v, hv, rfl⟩ := Option.map_eq_some_iff.1 h
    rw [List.cons_append, List.cons_append, scan, ih hv, Option.map_some]
  | case4 rest hlast hescape =>
    rw [List.cons_append, scan_cons (ne_backslash hlast hescape), if_pos rfl]
    exact h
  | case5 c rest hlast hescape hquote ih =>
    obtain ⟨v, hv, rfl⟩ := Option.map_eq_some_iff.1 h
    rw [List.cons_append, scan_cons (ne_backslash hlast hescape), if_neg hquote, ih hv,
      Option.map_some]

end Literal

namespace Symbol

/-- A symbol is told by two characters. -/
theorem leading?_cons_cons {c d : Char} {cs : List Char} {y : Symbol}
    (h : leading? (c :: d :: cs) = some y) (cs' : List Char) :
    leading? (c :: d :: cs') = some y := by
  obtain ⟨rest, hrest⟩ := eq_spelled_of_leading? h
  cases y <;> cases hrest <;> rfl

theorem leading?_append (c d : Char) (cs more : List Char) :
    leading? (c :: d :: cs ++ more) = leading? (c :: d :: cs) := by
  cases h : leading? (c :: d :: cs) with
  | some y => exact leading?_cons_cons h _
  | none =>
    cases h' : leading? (c :: d :: cs ++ more) with
    | none => rfl
    | some y => rw [leading?_cons_cons h' cs] at h; exact h

end Symbol

namespace Scanner

variable {cs more : List Char}

theorem takeWhile_append_of_mem {p : Char → Bool} {c : Char} (hc : c ∈ cs) (hp : p c = false)
    (more : List Char) : (cs ++ more).takeWhile p = cs.takeWhile p := by
  rw [List.takeWhile_append, if_neg]
  intro hlength
  have hall : cs.takeWhile p = cs := (List.takeWhile_prefix p).eq_of_length hlength
  rw [← hall] at hc
  rw [List.mem_takeWhile_imp hc] at hp
  cases hp

theorem dropWhile_append_of_mem {p : Char → Bool} {c : Char} (hc : c ∈ cs) (hp : p c = false)
    (more : List Char) : (cs ++ more).dropWhile p = cs.dropWhile p ++ more := by
  rw [List.dropWhile_append, if_neg]
  intro hempty
  have hall := List.dropWhile_eq_nil_iff.1 (List.isEmpty_iff.1 hempty)
  rw [hall c hc] at hp
  cases hp

/-! Inside tags. -/

/-- A word ends before a character that belongs to no word, whatever follows. -/
theorem wordLexeme_append {c e : Char} (he : e ∈ cs) (hname : isNameChar e = false)
    {r : Lexeme × Nat} (h : wordLexeme c cs = .ok r) (more : List Char) :
    wordLexeme c (cs ++ more) = .ok r := by
  have hdigit : e.isDigit = false := by
    cases hd : e.isDigit with
    | false => rfl
    | true => rw [isNameChar_of_isDigit hd] at hname; cases hname
  unfold wordLexeme at h ⊢
  rw [takeWhile_append_of_mem he hdigit, takeWhile_append_of_mem he hname]
  split at h
  · next hquote =>
    rw [if_pos hquote]
    split at h
    · next value n hscan =>
      rw [Literal.scan_append hscan]
      exact h
    · cases h
  · next hquote =>
    rw [if_neg hquote]
    exact h

theorem length_le_of_wordLexeme {c : Char} {x : Lexeme} {n : Nat}
    (h : wordLexeme c cs = .ok (x, n)) : n ≤ cs.length + 1 := by
  rcases wordLexeme_cases h with ⟨value, k, hscan, _, _, rfl⟩ | ⟨i, _, _, _, rfl⟩ | ⟨_, _, rfl⟩
  · exact Nat.succ_le_succ (Literal.scan_le hscan).2
  · exact Nat.succ_le_succ (List.takeWhile_prefix _).length_le
  · exact Nat.succ_le_succ (List.takeWhile_prefix _).length_le

theorem endsTag_wordLexeme {c : Char} {x : Lexeme} {n : Nat}
    (h : wordLexeme c cs = .ok (x, n)) : x.endsTag = false := by
  rcases wordLexeme_cases h with ⟨value, k, _, _, rfl, _⟩ | ⟨i, _, _, rfl, _⟩ | ⟨_, rfl, _⟩ <;> rfl

variable {b : Nat}

/-- Where no tag ends, there is a symbol or a word. -/
theorem tagLexeme_cons_cons {c e : Char} (hblock : ¬ (c = '%' ∧ e = '\x7d'))
    (hprint : ¬ (c = '\x7d' ∧ e = '\x7d' ∧ b = 0)) (cs : List Char) :
    tagLexeme b (c :: e :: cs) =
      match Symbol.leading? (c :: e :: cs) with
      | some y => .ok (some (.symbol y, y.spelled.length))
      | none => (wordLexeme c (e :: cs)).map some := by
  unfold tagLexeme
  split
  · next hnil => cases hnil
  · next hcons =>
    obtain ⟨rfl, htail⟩ := List.cons.inj hcons
    exact absurd ⟨rfl, (List.cons.inj htail).1⟩ hblock
  · next hcons =>
    obtain ⟨rfl, htail⟩ := List.cons.inj hcons
    exact absurd ⟨rfl, (List.cons.inj htail).1, rfl⟩ hprint
  · next hcons _ =>
    obtain ⟨rfl, rfl⟩ := List.cons.inj hcons
    rfl

theorem brace_mem_of_within {c : Char} {d : List Char} (hd : d ∈ (Mode.tag b).delimiters)
    (h : d <:+: c :: cs) : '\x7d' ∈ cs := by
  have hmem : ∃ e, d = [e, '\x7d'] := by
    simp only [Mode.delimiters, List.mem_cons, List.not_mem_nil, or_false] at hd
    rcases hd with rfl | rfl
    · exact ⟨_, rfl⟩
    · exact ⟨_, rfl⟩
  obtain ⟨e, rfl⟩ := hmem
  rcases List.infix_cons_iff.1 h with hstarts | hwithin
  · obtain ⟨w, hw⟩ := hstarts
    obtain ⟨_, rfl⟩ := List.cons.inj hw
    exact List.mem_cons_self
  · exact hwithin.subset (List.mem_cons_of_mem _ List.mem_cons_self)

/-- As long as a tag has an end, its next lexeme is the same whatever follows the end. -/
theorem tagLexeme_append {d : List Char} (hd : d ∈ (Mode.tag b).delimiters) (h : d <:+: cs)
    {r : Lexeme × Nat} (hr : tagLexeme b cs = .ok (some r)) (more : List Char) :
    tagLexeme b (cs ++ more) = .ok (some r) := by
  have hlength := two_le_length_of_within hd h
  match cs, hlength with
  | c :: e :: cs, _ =>
    by_cases hblock : c = '%' ∧ e = '\x7d'
    · obtain ⟨rfl, rfl⟩ := hblock
      exact hr
    by_cases hprint : c = '\x7d' ∧ e = '\x7d' ∧ b = 0
    · obtain ⟨rfl, rfl, rfl⟩ := hprint
      exact hr
    rw [tagLexeme_cons_cons hblock hprint] at hr
    have hleading := Symbol.leading?_append c e cs more
    rw [List.cons_append, List.cons_append] at hleading ⊢
    rw [tagLexeme_cons_cons hblock hprint, hleading]
    split at hr
    · exact hr
    · cases hword : wordLexeme c (e :: cs) with
      | error fault => rw [hword] at hr; cases hr
      | ok w =>
        have hmore := wordLexeme_append (brace_mem_of_within hd h) (by decide) hword more
        rw [List.cons_append] at hmore
        rw [hword] at hr
        rw [hmore]
        exact hr

theorem length_le_of_tagLexeme {x : Lexeme} {n : Nat}
    (h : tagLexeme b cs = .ok (some (x, n))) : n ≤ cs.length := by
  rcases tagLexeme_cases h with ⟨hstarts, _, rfl⟩ | ⟨hstarts, _, _, rfl⟩ | ⟨y, hy, _, rfl⟩ |
    ⟨c, rest, rfl, _, hword⟩
  · exact hstarts.length_le
  · exact hstarts.length_le
  · obtain ⟨w, rfl⟩ := Symbol.eq_spelled_of_leading? hy
    rw [List.length_append]
    exact Nat.le_add_right _ _
  · exact length_le_of_wordLexeme hword

/-- A tag ends at a delimiter. -/
theorem starts_of_endsTag {x : Lexeme} {n : Nat} (h : tagLexeme b cs = .ok (some (x, n)))
    (hx : x.endsTag = true) : ∃ d ∈ (Mode.tag b).delimiters, d <+: cs := by
  rcases tagLexeme_cases h with ⟨hstarts, _, _⟩ | ⟨hstarts, _, _, _⟩ | ⟨y, _, rfl, _⟩ |
    ⟨c, rest, rfl, _, hword⟩
  · exact ⟨_, List.mem_cons_self, hstarts⟩
  · exact ⟨_, List.mem_cons_of_mem _ List.mem_cons_self, hstarts⟩
  · cases hx
  · rw [endsTag_wordLexeme hword] at hx
    cases hx

theorem eq_nil_of_tagLexeme {b : Nat} (h : tagLexeme b cs = .ok none) : cs = [] := by
  unfold tagLexeme at h
  split at h
  · rfl
  · cases h
  · cases h
  · split at h
    · cases h
    · cases hword : wordLexeme _ _ with
      | error fault => rw [hword] at h; cases h
      | ok w => rw [hword] at h; cases h

theorem within_dropWhile {p : Char → Bool} {c : Char} {d : List Char} (hc : p c = false)
    (h : c :: d <:+: cs) : c :: d <:+: cs.dropWhile p := by
  induction cs with
  | nil => exact h
  | cons e cs ih =>
    rw [List.dropWhile_cons]
    split
    · next he =>
      refine ih ((List.infix_cons_iff.1 h).resolve_left ?_)
      rintro ⟨w, hw⟩
      obtain ⟨rfl, _⟩ := List.cons.inj hw
      rw [he] at hc
      cases hc
    · exact h

theorem delimiters_after_tag {b : Nat} {x : Lexeme} (hx : x.endsTag = false) :
    ((Mode.tag b).after x).delimiters = (Mode.tag b).delimiters := by
  cases x with
  | blockEnd => cases hx
  | printEnd => cases hx
  | symbol y => cases y <;> rfl
  | _ => rfl

/-! Line breaks after tags. -/

theorem breakLength_append (h : breakLength more = 0) (cs : List Char) :
    breakLength (cs ++ more) = breakLength cs := by
  match cs with
  | [] => exact h
  | [c] =>
    by_cases hreturn : c = '\r'
    · subst hreturn
      cases more with
      | nil => rfl
      | cons e more =>
        -- a line feed after the carriage return would itself be a line break
        have he : e ≠ '\n' := by
          rintro rfl
          cases h
        simp [breakLength, he]
    · by_cases hfeed : c = '\n'
      · subst hfeed
        rfl
      · simp_all [breakLength]
  | c :: e :: cs =>
    by_cases hfeed : c = '\n'
    · simp [breakLength, hfeed]
    · by_cases hboth : c = '\r' ∧ e = '\n'
      · obtain ⟨rfl, rfl⟩ := hboth
        rfl
      · simp_all [breakLength]

theorem breakLength_le (cs : List Char) : breakLength cs ≤ cs.length := by
  unfold breakLength
  split <;> simp

/-! Up to a tag of a given name. -/

theorem mem_dropWhile_of_mem {p : Char → Bool} {c : Char} (hc : c ∈ cs) (hp : p c = false) :
    c ∈ cs.dropWhile p := by
  have hsplit : c ∈ cs.takeWhile p ++ cs.dropWhile p := by
    rw [List.takeWhile_append_dropWhile]
    exact hc
  rcases List.mem_append.1 hsplit with htake | hdrop
  · rw [List.mem_takeWhile_imp htake] at hp
    cases hp
  · exact hdrop

/-- Whether a tag has a name is told by the text up to a character that is not in the name. -/
theorem opensTag_append {name : List Char} {c : Char} (hc : c ∈ cs)
    (hblank : Blank.isBlank c = false) (hname : c ∉ name) (more : List Char) :
    opensTag name (cs ++ more) = opensTag name cs := by
  have hinner := mem_dropWhile_of_mem hc hblank
  unfold opensTag
  rw [dropWhile_append_of_mem hc hblank]
  generalize cs.dropWhile Blank.isBlank = inner at hinner
  dsimp only
  by_cases hstarts : name <+: inner
  · obtain ⟨v, rfl⟩ := hstarts
    have hv : c ∈ v := (List.mem_append.1 hinner).resolve_left hname
    have htrue : ∀ w, name.isPrefixOf (name ++ w) = true := fun w =>
      List.isPrefixOf_iff_prefix.2 (List.prefix_append name w)
    rw [List.append_assoc, htrue, htrue, List.drop_left, List.drop_left]
    cases v with
    | nil => exact absurd hv List.not_mem_nil
    | cons e v => rfl
  · have hmore : ¬ name <+: inner ++ more := by
      intro h
      rcases List.prefix_or_prefix_of_prefix h (List.prefix_append inner more) with hle | hle
      · exact hstarts hle
      · exact hname (hle.subset hinner)
    have hfalse : ∀ w, ¬ name <+: w → name.isPrefixOf w = false := fun w hw =>
      Bool.eq_false_iff.2 fun h => hw (List.isPrefixOf_iff_prefix.1 h)
    rw [hfalse _ hstarts, hfalse _ hmore]
    rfl

theorem within_of_lengthBefore {name : List Char} {n : Nat} (h : lengthBefore name cs = some n) :
    ['\x7b', '%'] <:+: cs := by
  fun_induction lengthBefore name cs generalizing n with
  | case1 => cases h
  | case2 rest => exact (List.prefix_append ['\x7b', '%'] rest).isInfix
  | case3 rest => exact (List.prefix_append ['\x7b', '%'] rest).isInfix
  | case4 c rest _ ih =>
    obtain ⟨k, hk, _⟩ := Option.map_eq_some_iff.1 h
    exact (ih hk).trans (List.suffix_cons c rest).isInfix

theorem lengthBefore_cons {name : List Char} {c : Char} (h : ¬ ['\x7b', '%'] <+: c :: cs) :
    lengthBefore name (c :: cs) = (lengthBefore name cs).map (· + 1) := by
  rw [lengthBefore]
  rintro rest rfl rfl
  exact h (List.prefix_append ['\x7b', '%'] rest)

/-- The first tag of a name is the same one whatever follows the end of that tag. -/
theorem lengthBefore_append_of_mem {name : List Char} (hopen : '\x7b' ∉ name)
    (hclose : '\x7d' ∉ name) {n : Nat} (h : lengthBefore name cs = some n)
    (hmem : '\x7d' ∈ cs.drop (n + 2)) (more : List Char) :
    lengthBefore name (cs ++ more) = some n := by
  fun_induction lengthBefore name cs generalizing n with
  | case1 => cases h
  | case2 rest hopens =>
    cases h
    have hrest : '\x7d' ∈ rest := hmem
    rw [List.cons_append, List.cons_append, lengthBefore,
      opensTag_append hrest (by decide) hclose, if_pos hopens]
  | case3 rest hopens ih =>
    obtain ⟨k, hk, rfl⟩ := Option.map_eq_some_iff.1 h
    have hbrace : '\x7b' ∈ rest := (within_of_lengthBefore hk).subset List.mem_cons_self
    rw [List.cons_append, List.cons_append, lengthBefore,
      opensTag_append hbrace (by decide) hopen, if_neg hopens, ih hk hmem, Option.map_some]
  | case4 c rest hnot ih =>
    obtain ⟨k, hk, rfl⟩ := Option.map_eq_some_iff.1 h
    have hstarts : ¬ ['\x7b', '%'] <+: c :: (rest ++ more) := by
      intro hstarts
      have hlength := (within_of_lengthBefore hk).length_le
      have hhere : ['\x7b', '%'] <+: c :: rest :=
        starts_of_starts_append (m := .text) List.mem_cons_self (Nat.le_succ_of_le hlength) hstarts
      obtain ⟨v, hv⟩ := hhere
      obtain ⟨rfl, rfl⟩ := List.cons.inj hv
      exact hnot v rfl rfl
    rw [List.cons_append, lengthBefore_cons hstarts, ih hk hmem, Option.map_some]

theorem length_le_of_lengthBefore {name : List Char} {n : Nat}
    (h : lengthBefore name cs = some n) : n + 2 ≤ cs.length := by
  fun_induction lengthBefore name cs generalizing n with
  | case1 => cases h
  | case2 rest =>
    cases h
    simp
  | case3 rest _ ih =>
    obtain ⟨k, hk, rfl⟩ := Option.map_eq_some_iff.1 h
    have hle := ih hk
    simp only [List.length_cons]
    omega
  | case4 c rest _ ih =>
    obtain ⟨k, hk, rfl⟩ := Option.map_eq_some_iff.1 h
    have hle := ih hk
    simp only [List.length_cons]
    omega

end Scanner

end Polyglot
