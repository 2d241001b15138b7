import Mathlib.Data.List.TakeWhile
import Mathlib.Data.Nat.Find
import Polyglot.Proofs.ReplacementMaps

/-!
What filling in does to a message as a whole. The message is cut at placeholders that have a
replacement, each of them the leftmost one behind the one before it, and only these are replaced:
what stands between them is kept, what is put in is not looked at, and names of any other form
count for nothing.
-/
namespace Polyglot.Placeholder

/-- A text without percent signs between two percent signs. -/
def IsPlaceholder (key : List Char) : Prop :=
  ∃ w, '%' ∉ w ∧ key = '%' :: w ++ ['%']

/-- A text begins with a placeholder that has a replacement. -/
def StartsReplaced (rs : Entries String) (cs : List Char) : Prop :=
  ∃ key value, IsPlaceholder key.toList ∧ rs.get? key = some value ∧ key.toList <+: cs

/-- A placeholder that is replaced, with the text that stands between it and the one before it. -/
structure Cut where
  before : List Char
  key : String
  value : String

/-- The message that is cut, before and after the placeholders are replaced. -/
def Cut.message (cuts : List Cut) (last : List Char) : List Char :=
  cuts.flatMap (fun cut => cut.before ++ cut.key.toList) ++ last

def Cut.filled (cuts : List Cut) (last : List Char) : List Char :=
  cuts.flatMap (fun cut => cut.before ++ cut.value.toList) ++ last

/-- Every placeholder is the leftmost one with a replacement behind the one before it, and there is
none behind the last. -/
inductive IsLeftmost (rs : Entries String) : List Cut → List Char → Prop
  | nil {last : List Char} (hlast : ∀ k, ¬ StartsReplaced rs (last.drop k)) : IsLeftmost rs [] last
  | cons {cut : Cut} {cuts : List Cut} {last : List Char} (hkey : IsPlaceholder cut.key.toList)
    (hvalue : rs.get? cut.key = some cut.value)
    (hfirst : ∀ k < cut.before.length,
      ¬ StartsReplaced rs ((Cut.message (cut :: cuts) last).drop k))
    (h : IsLeftmost rs cuts last) : IsLeftmost rs (cut :: cuts) last

variable {rs : Entries String} {cs : List Char}

theorem IsPlaceholder.length_pos {key : List Char} (h : IsPlaceholder key) : 0 < key.length := by
  obtain ⟨w, _, rfl⟩ := h
  exact Nat.succ_pos _

theorem Cut.message_cons (cut : Cut) (cuts : List Cut) (last : List Char) :
    message (cut :: cuts) last = cut.before ++ (cut.key.toList ++ message cuts last) := by
  simp [message]

theorem Cut.filled_cons (cut : Cut) (cuts : List Cut) (last : List Char) :
    filled (cut :: cuts) last = cut.before ++ (cut.value.toList ++ filled cuts last) := by
  simp [filled]

theorem fillChars_of_starts {key value : String} (hkey : IsPlaceholder key.toList)
    (hvalue : rs.get? key = some value) (rest : List Char) :
    fillChars rs (key.toList ++ rest) = value.toList ++ fillChars rs rest := by
  obtain ⟨w, hw, htoList⟩ := hkey
  have hget : rs.get? (String.ofList ('%' :: w ++ ['%'])) = some value := by
    rw [← htoList, String.ofList_toList, hvalue]
  have hfill := fillChars_placeholder hw hget rest
  rw [htoList]
  simpa using hfill

/-- A character at which no placeholder with a replacement begins is kept. A percent sign among
them may still end a pair that counts, so the text goes on right behind it. -/
theorem fillChars_of_not_starts {c : Char} (h : ¬ StartsReplaced rs (c :: cs)) :
    fillChars rs (c :: cs) = c :: fillChars rs cs := by
  by_cases hc : c = '%'
  · subst hc
    cases hdrop : cs.dropWhile (· != '%') with
    | nil =>
      have hnone : '%' ∉ cs := by
        intro hmem
        simpa using List.dropWhile_eq_nil_iff.1 hdrop _ hmem
      rw [fillChars_last hdrop, fillChars_of_not_mem hnone]
    | cons d after =>
      rw [fillChars_percent hdrop]
      split
      · next value hvalue =>
        have hd : d = '%' := by
          have hhead := List.head?_dropWhile_not (· != '%') cs
          rw [hdrop] at hhead
          simpa using hhead
        have hname : '%' ∉ cs.takeWhile (· != '%') := by
          intro hmem
          simpa using List.mem_takeWhile_imp hmem
        have hsplit : cs.takeWhile (· != '%') ++ '%' :: after = cs := by
          rw [hd] at hdrop
          rw [← hdrop, List.takeWhile_append_dropWhile]
        refine absurd ⟨_, value, ?_, hvalue, ?_⟩ h
        · exact ⟨_, hname, by rw [String.toList_ofList]⟩
        · rw [String.toList_ofList]
          exact ⟨after, by simp [hsplit]⟩
      · rfl
  · exact fillChars_of_ne hc rs cs

theorem fillChars_append {u : List Char}
    (h : ∀ k < u.length, ¬ StartsReplaced rs ((u ++ cs).drop k)) :
    fillChars rs (u ++ cs) = u ++ fillChars rs cs := by
  induction u with
  | nil => rfl
  | cons c u ih =>
    have hc : ¬ StartsReplaced rs (c :: (u ++ cs)) := h 0 (Nat.succ_pos _)
    have hu : ∀ k < u.length, ¬ StartsReplaced rs ((u ++ cs).drop k) := fun k hk =>
      h (k + 1) (Nat.succ_lt_succ hk)
    rw [List.cons_append, fillChars_of_not_starts hc, ih hu, List.cons_append]

/-- Cutting from the left tells what filling in gives. -/
theorem fillChars_of_isLeftmost {cuts : List Cut} {last : List Char}
    (h : IsLeftmost rs cuts last) :
    fillChars rs (Cut.message cuts last) = Cut.filled cuts last := by
  induction h with
  | @nil last hlast =>
    have hnone : ∀ k < last.length, ¬ StartsReplaced rs ((last ++ []).drop k) := by
      simpa using fun k _ => hlast k
    simpa [Cut.message, Cut.filled, fillChars] using fillChars_append hnone
  | @cons cut cuts last hkey hvalue hfirst _ ih =>
    rw [Cut.message_cons] at hfirst ⊢
    rw [Cut.filled_cons, fillChars_append hfirst, fillChars_of_starts hkey hvalue, ih]

/-- Every text can be cut from the left. -/
theorem exists_isLeftmost (rs : Entries String) (cs : List Char) :
    ∃ cuts last, cs = Cut.message cuts last ∧ IsLeftmost rs cuts last := by
  classical
  induction hn : cs.length using Nat.strong_induction_on generalizing cs with
  | h n ih =>
    by_cases hany : ∃ k, StartsReplaced rs (cs.drop k)
    · obtain ⟨key, value, hkey, hvalue, rest, hrest⟩ := Nat.find_spec hany
      have hmin : ∀ k < Nat.find hany, ¬ StartsReplaced rs (cs.drop k) := fun k hk =>
        Nat.find_min hany hk
      generalize Nat.find hany = first at hrest hmin
      have hlt : rest.length < n := by
        have hlength := congrArg List.length hrest
        have hpos := hkey.length_pos
        rw [List.length_append, List.length_drop] at hlength
        omega
      obtain ⟨cuts, last, rfl, hcuts⟩ := ih rest.length hlt rest rfl
      have hcs : cs = Cut.message (⟨cs.take first, key, value⟩ :: cuts) last := by
        rw [Cut.message_cons, hrest, List.take_append_drop]
      refine ⟨⟨cs.take first, key, value⟩ :: cuts, last, hcs, .cons hkey hvalue ?_ hcuts⟩
      intro k hk
      rw [← hcs]
      exact hmin k (Nat.lt_of_lt_of_le hk (List.length_take_le first cs))
    · exact ⟨[], cs, rfl, .nil fun k hk => hany ⟨k, hk⟩⟩

/-- Which places count depends on the replacements of placeholders only. -/
theorem StartsReplaced.congr {rs' : Entries String}
    (hrs : ∀ key, IsPlaceholder key.toList → rs'.get? key = rs.get? key)
    (h : StartsReplaced rs' cs) : StartsReplaced rs cs := by
  obtain ⟨key, value, hkey, hvalue, hprefix⟩ := h
  exact ⟨key, value, hkey, (hrs key hkey).symm.trans hvalue, hprefix⟩

theorem IsLeftmost.congr {rs' : Entries String}
    (hrs : ∀ key, IsPlaceholder key.toList → rs'.get? key = rs.get? key) {cuts : List Cut}
    {last : List Char} (h : IsLeftmost rs cuts last) : IsLeftmost rs' cuts last := by
  induction h with
  | nil hlast => exact .nil fun k hk => hlast k (hk.congr hrs)
  | cons hkey hvalue hfirst _ ih =>
    refine .cons hkey ((hrs _ hkey).trans hvalue) (fun k hk hstarts => ?_) ih
    exact hfirst k hk (hstarts.congr hrs)

/-- Filling in is leftmost, in a single pass, and exact: the result is the message with the leftmost
placeholders that have replacements replaced, one behind the other, and the rest of it kept. Names
that are no placeholders have no effect, whatever they are bound to. -/
theorem fill_leftmost (rs : Entries String) (message : String) :
    (∀ out, fill rs message = out ↔ ∃ cuts last, message.toList = Cut.message cuts last ∧
      IsLeftmost rs cuts last ∧ out.toList = Cut.filled cuts last) ∧
    ∀ rs' : Entries String, (∀ key, IsPlaceholder key.toList → rs'.get? key = rs.get? key) →
      fill rs' message = fill rs message := by
  obtain ⟨cuts, last, hmessage, hcuts⟩ := exists_isLeftmost rs message.toList
  have hfill : ∀ {rs : Entries String} {cuts : List Cut} {last : List Char},
      message.toList = Cut.message cuts last → IsLeftmost rs cuts last →
        (fill rs message).toList = Cut.filled cuts last := by
    intro rs cuts last hmessage hcuts
    rw [fill, String.toList_ofList, hmessage, fillChars_of_isLeftmost hcuts]
  refine ⟨fun out => ⟨?_, ?_⟩, fun rs' hrs => ?_⟩
  · rintro rfl
    exact ⟨cuts, last, hmessage, hcuts, hfill hmessage hcuts⟩
  · rintro ⟨cuts', last', hmessage', hcuts', hout⟩
    exact String.toList_injective ((hfill hmessage' hcuts').trans hout.symm)
  · apply String.toList_injective
    rw [hfill hmessage hcuts, hfill hmessage (hcuts.congr hrs)]

/-- A pair of percent signs without a replacement gives its second one to the next pair, and a value
that looks like a placeholder stays. -/
example : fill [("%a%", "%b%"), ("%b%", "x")] "%a%%%b% 5%" = "%b%%x 5%" := by cbv

end Polyglot.Placeholder
