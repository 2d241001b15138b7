import Polyglot.Evaluation
import Polyglot.Proofs.PhraseCalls
import Polyglot.Proofs.ReadExprs

/-!
Where the characters of a filled message come from. A message has no characters but those of its
texts and of its placeholders, and filling in adds only characters of the printed replacements; a
translator answers in between.
-/
namespace Polyglot

namespace Entries

variable {α : Type} {x : String × α}

theorem mem_of_mem_insert {name : String} {a : α} {es : Entries α}
    (h : x ∈ es.insert name a) : x = (name, a) ∨ x ∈ es := by
  induction es with
  | nil => exact .inl (List.mem_singleton.1 h)
  | cons e es ih =>
    obtain ⟨n, b⟩ := e
    unfold insert at h
    split at h
    · rcases List.mem_cons.1 h with rfl | h
      · exact .inl rfl
      · exact .inr (List.mem_cons_of_mem _ h)
    · split at h
      · exact List.mem_cons.1 h
      · rcases List.mem_cons.1 h with rfl | h
        · exact .inr List.mem_cons_self
        · exact (ih h).imp_right (List.mem_cons_of_mem _)

theorem mem_of_mem_ofList {es : List (String × α)} (h : x ∈ ofList es) : x ∈ es := by
  have hfold : ∀ (es : List (String × α)) (acc : Entries α),
      x ∈ es.foldl (fun acc e => acc.insert e.1 e.2) acc → x ∈ acc ∨ x ∈ es := by
    intro es
    induction es with
    | nil => exact fun _ h => .inl h
    | cons e es ih =>
      intro acc h
      rcases ih _ h with h | h
      · rcases mem_of_mem_insert h with rfl | h
        · exact .inr List.mem_cons_self
        · exact .inl h
      · exact .inr (List.mem_cons_of_mem _ h)
  rcases hfold es [] h with h | h
  · exact absurd h List.not_mem_nil
  · exact h

theorem mem_of_get? {name : String} {a : α} {es : Entries α} (h : es.get? name = some a) :
    (name, a) ∈ es := by
  induction es with
  | nil => cases h
  | cons e es ih =>
    obtain ⟨n, b⟩ := e
    unfold get? at h
    split at h
    · next hn =>
      cases h
      cases hn
      exact List.mem_cons_self
    · exact List.mem_cons_of_mem _ (ih h)

end Entries

namespace Placeholder

/-- Every character of a filled message stands in the message or in a replacement. -/
theorem not_mem_fillChars {c : Char} {rs : Entries String} (hrs : ∀ x ∈ rs, c ∉ x.2.toList)
    {cs : List Char} (hcs : c ∉ cs) : c ∉ fillChars rs cs := by
  fun_induction fillChars rs cs with
  | case1 => exact hcs
  | case2 rest h => exact hcs
  | case3 rest d after hdrop key value hvalue ih =>
    have hafter : c ∉ after := by
      intro hmem
      have hsuffix := (List.dropWhile_suffix (l := rest) (· != '%')).subset
      rw [hdrop] at hsuffix
      exact hcs (List.mem_cons_of_mem _ (hsuffix (List.mem_cons_of_mem _ hmem)))
    have hvalue' := hrs _ (Entries.mem_of_get? hvalue)
    exact fun h => (List.mem_append.1 h).elim hvalue' (ih hafter)
  | case4 rest d after hdrop key hnone ih =>
    rw [List.mem_cons, not_or] at hcs ⊢
    exact ⟨hcs.1, ih hcs.2⟩
  | case5 d rest hd ih =>
    rw [List.mem_cons, not_or] at hcs ⊢
    exact ⟨hcs.1, ih hcs.2⟩

theorem not_mem_fill {c : Char} {rs : Entries String} {message : String}
    (hrs : ∀ x ∈ rs, c ∉ x.2.toList) (hmessage : c ∉ message.toList) :
    c ∉ (fill rs message).toList := by
  rw [fill, String.toList_ofList]
  exact not_mem_fillChars hrs hmessage

end Placeholder

namespace Message

theorem mem_of_mem_trim {c : Char} {s : String} (h : c ∈ (trim s).toList) : c ∈ s.toList := by
  rw [trim, String.toList_ofList, Blank.trim, Blank.dropTrailing, List.mem_reverse] at h
  have hreverse := (List.dropWhile_suffix _).subset h
  exact (List.dropWhile_suffix _).subset (List.mem_reverse.1 hreverse)

/-- The characters of a message stand in its texts or in the placeholders of its variables. -/
theorem not_mem_literal {nodes : List Node} {line : Nat} {x : Extracted}
    (h : ofNodes nodes line = .ok x) {c : Char} (htext : ∀ s, .text s ∈ nodes → c ∉ s.toList)
    (hname : ∀ e n, .print e ∈ nodes → variableName? e = some n → c ∉ n.toList)
    (hpercent : c ≠ '%') : ∃ s, x.message = .literal s ∧ c ∉ s.toList := by
  obtain ⟨ps, hps, rfl⟩ := eq_ofPieces h
  refine ⟨_, rfl, fun hmem => ?_⟩
  have hjoin := mem_of_mem_trim hmem
  rw [String.toList_join, List.mem_flatMap] at hjoin
  obtain ⟨s, hs, hc⟩ := hjoin
  obtain ⟨p, hp, rfl⟩ := List.mem_map.1 hs
  obtain ⟨n, hn, hpiece⟩ := mem_of_pieces? hps hp
  cases n with
  | text s =>
    cases hpiece
    exact htext s hn hc
  | print e =>
    obtain ⟨m, hm, rfl⟩ := Option.map_eq_some_iff.1 hpiece
    have hplaceholder : c = '%' ∨ c ∈ m.toList := by
      simpa [Piece.shown, Variable.placeholder, or_assoc, or_comm] using hc
    exact hplaceholder.elim hpercent (hname e m hn hm)
  | loop target items body => cases hpiece
  | branch cases otherwise => cases hpiece
  | phrase q => cases hpiece

end Message

namespace Value

/-- The printed form, if there is one, is without a character. -/
def Lacks (c : Char) (v : Value) : Prop := ∀ s, v.printed = .ok s → c ∉ s.toList

theorem lacks_text {c : Char} {s : String} (h : c ∉ s.toList) : (text s).Lacks c := by
  intro t ht
  cases ht
  exact h

theorem lacks_int {c : Char} (hdigit : c.isDigit = false) (hminus : c ≠ '-') (i : Integer) :
    (int i).Lacks c := by
  intro s hs
  cases hs
  have hdigits : ∀ n : Nat, c ∉ Decimal.digits n := fun n h =>
    absurd (Decimal.isDigit_of_mem_digits h) (by simp [hdigit])
  simp only [Scalar.printed, Integer.text, Decimal.text, Decimal.natText]
  split <;> simp [hdigits, hminus]

end Value

namespace Evaluator

variable {c : Char}

theorem not_mem_of_printedEntries {es : List (String × Value)} {rs : Entries String}
    (h : printedEntries es = .ok rs) (hes : ∀ x ∈ es, x.2.Lacks c) : ∀ x ∈ rs, c ∉ x.2.toList := by
  induction es generalizing rs with
  | nil =>
    cases h
    exact fun _ hx => absurd hx List.not_mem_nil
  | cons e es ih =>
    obtain ⟨key, v⟩ := e
    obtain ⟨hv, hes⟩ := List.forall_mem_cons.1 hes
    unfold printedEntries at h
    obtain ⟨s, hs, h⟩ := exists_of_bind_eq_ok h
    obtain ⟨ss, hss, h⟩ := exists_of_bind_eq_ok h
    rw [← Except.ok.inj h]
    exact List.forall_mem_cons.2 ⟨hv s hs, ih hss hes⟩

/-- The last argument, if it is a map, has only entries whose printed forms lack a character. -/
def LastLacks (c : Char) (last : Option Value) : Prop :=
  ∀ es, last = some (.map es) → ∀ x ∈ es, x.2.Lacks c

theorem not_mem_of_replacements {last : Option Value} {rs : Entries String}
    (h : replacements last = .ok rs) (hlast : LastLacks c last) : ∀ x ∈ rs, c ∉ x.2.toList := by
  unfold replacements at h
  split at h
  · cases h
    exact fun _ hx => absurd hx List.not_mem_nil
  · cases h
    exact fun _ hx => absurd hx List.not_mem_nil
  · next es => exact not_mem_of_printedEntries h (hlast es rfl)
  · cases h

end Evaluator

end Polyglot
