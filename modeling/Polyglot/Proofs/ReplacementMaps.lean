import Polyglot.Proofs.FilledMessages

/-!
Replacement maps by their lookups. A map made from a list of entries holds exactly the entries of
the list, if no name has two of them; the map of printed values is looked up like the map of values
itself. A message is filled in by lookups alone, so maps with the same lookups fill it alike.
-/
namespace Polyglot

namespace Entries

variable {α : Type}

theorem isSome_get?_foldl {es : List (String × α)} {acc : Entries α} {name : String}
    (h : (acc.get? name).isSome ∨ name ∈ es.map (·.1)) :
    ((es.foldl (fun acc e => acc.insert e.1 e.2) acc).get? name).isSome := by
  induction es generalizing acc with
  | nil => simpa using h
  | cons e es ih =>
    apply ih
    by_cases hname : name = e.1
    · left
      rw [hname, get?_insert_self]
      rfl
    · rw [get?_insert_of_ne hname]
      simpa [hname] using h

/-- The lookups in a map made from a list that gives no name two values. -/
theorem get?_ofList {es : List (String × α)} (h : ∀ x ∈ es, ∀ y ∈ es, x.1 = y.1 → x.2 = y.2)
    {name : String} {a : α} : (ofList es).get? name = some a ↔ (name, a) ∈ es := by
  constructor
  · intro hget
    exact mem_of_mem_ofList (mem_of_get? hget)
  · intro hmem
    have hsome : ((ofList es).get? name).isSome :=
      isSome_get?_foldl (.inr (List.mem_map.2 ⟨_, hmem, rfl⟩))
    obtain ⟨b, hb⟩ := Option.isSome_iff_exists.1 hsome
    have hmem' := mem_of_mem_ofList (mem_of_get? hb)
    have hab : a = b := h _ hmem _ hmem' rfl
    rw [hb, hab]

end Entries

namespace Placeholder

theorem fillChars_of_ne {c : Char} (hc : c ≠ '%') (rs : Entries String) (rest : List Char) :
    fillChars rs (c :: rest) = c :: fillChars rs rest := by
  rw [fillChars, if_neg hc]

/-- A percent sign that no other one follows stands for itself, and nothing after it is filled. -/
theorem fillChars_last {rest : List Char} (h : rest.dropWhile (· != '%') = [])
    (rs : Entries String) : fillChars rs ('%' :: rest) = '%' :: rest := by
  rw [fillChars, if_pos rfl]
  split
  · rfl
  · next hdrop => simp [h] at hdrop

/-- Two percent signs are a placeholder if there is a replacement for it. -/
theorem fillChars_percent {rest after : List Char} {d : Char}
    (h : rest.dropWhile (· != '%') = d :: after) (rs : Entries String) :
    fillChars rs ('%' :: rest) =
      match rs.get? (String.ofList ('%' :: rest.takeWhile (· != '%') ++ ['%'])) with
      | some value => value.toList ++ fillChars rs after
      | none => '%' :: fillChars rs rest := by
  rw [fillChars, if_pos rfl]
  split
  · next hdrop => simp [h] at hdrop
  · next hdrop =>
    rw [h] at hdrop
    cases hdrop
    rfl

theorem fillChars_of_not_mem {cs : List Char} (h : '%' ∉ cs) (rs : Entries String) :
    fillChars rs cs = cs := by
  induction cs with
  | nil => rw [fillChars]
  | cons c cs ih =>
    rw [List.mem_cons, not_or] at h
    rw [fillChars_of_ne (Ne.symm h.1), ih h.2]

/-- A placeholder that has a replacement is replaced as a whole. -/
theorem fillChars_placeholder {rs : Entries String} {w : List Char} (hw : '%' ∉ w) {value : String}
    (h : rs.get? (String.ofList ('%' :: w ++ ['%'])) = some value) (rest : List Char) :
    fillChars rs ('%' :: w ++ '%' :: rest) = value.toList ++ fillChars rs rest := by
  have hname : ∀ c ∈ w, (c != '%') = true := by
    intro c hc
    simp only [bne_iff_ne, ne_eq]
    rintro rfl
    exact hw hc
  have htake : (w ++ '%' :: rest).takeWhile (· != '%') = w := by
    rw [List.takeWhile_append_of_pos hname, List.takeWhile_cons_of_neg (by decide),
      List.append_nil]
  have hdrop : (w ++ '%' :: rest).dropWhile (· != '%') = '%' :: rest := by
    rw [List.dropWhile_append_of_pos hname, List.dropWhile_cons_of_neg (by decide)]
  rw [List.cons_append, fillChars_percent hdrop, htake, h]

theorem fillChars_congr {rs rs' : Entries String} (h : ∀ key, rs.get? key = rs'.get? key)
    (cs : List Char) : fillChars rs cs = fillChars rs' cs := by
  fun_induction fillChars rs cs with
  | case1 => rw [fillChars]
  | case2 rest hdrop => exact (fillChars_last hdrop rs').symm
  | case3 rest d after hdrop key value hvalue ih =>
    rw [fillChars_percent hdrop, ← h, hvalue, ih]
  | case4 rest d after hdrop key hnone ih =>
    rw [fillChars_percent hdrop, ← h, hnone, ih]
  | case5 c rest hc ih => rw [fillChars_of_ne hc, ih]

/-- Filling in looks replacements up and nothing else. -/
theorem fill_congr {rs rs' : Entries String} (h : ∀ key, rs.get? key = rs'.get? key)
    (message : String) : fill rs message = fill rs' message := by
  rw [fill, fill, fillChars_congr h]

end Placeholder

namespace Evaluator

theorem toOption_printed (v : Value) : v.printed.toOption = v.printed? := by
  unfold Value.printed
  split
  · next s hs => rw [hs]; rfl
  · next hs => rw [hs]; rfl

theorem get?_printedEntries {es : List (String × Value)} {rs : Entries String}
    (h : printedEntries es = .ok rs) (key : String) :
    rs.get? key = (Entries.get? key es).bind (·.printed?) := by
  induction es generalizing rs with
  | nil =>
    cases h
    rfl
  | cons e es ih =>
    obtain ⟨name, v⟩ := e
    unfold printedEntries at h
    obtain ⟨s, hs, h⟩ := exists_of_bind_eq_ok h
    obtain ⟨ss, hss, h⟩ := exists_of_bind_eq_ok h
    rw [← Except.ok.inj h, Entries.get?, Entries.get?]
    by_cases hname : name = key
    · rw [if_pos hname, if_pos hname, Option.bind_some, ← toOption_printed, hs]
      rfl
    · rw [if_neg hname, if_neg hname, ih hss]

theorem exists_printedEntries {es : List (String × Value)} :
    (∃ rs, printedEntries es = .ok rs) ↔ ∀ x ∈ es, x.2.printed?.isSome := by
  induction es with
  | nil => simp [printedEntries]
  | cons e es ih =>
    obtain ⟨name, v⟩ := e
    rw [List.forall_mem_cons, ← ih, ← toOption_printed]
    constructor
    · rintro ⟨rs, h⟩
      unfold printedEntries at h
      obtain ⟨s, hs, h⟩ := exists_of_bind_eq_ok h
      obtain ⟨ss, hss, _⟩ := exists_of_bind_eq_ok h
      exact ⟨by rw [hs]; rfl, ss, hss⟩
    · rintro ⟨hv, ss, hss⟩
      cases hs : v.printed with
      | error f => simp [hs, Except.toOption] at hv
      | ok s =>
        refine ⟨(name, s) :: ss, ?_⟩
        rw [printedEntries, hs, hss]
        rfl

variable {es : List (String × Value)} (hes : ∀ x ∈ es, ∀ y ∈ es, x.1 = y.1 → x.2 = y.2)
include hes

/-- A map has a printed form of every entry if the list that it was made from has. -/
theorem exists_printedEntries_ofList :
    (∃ rs, printedEntries (Entries.ofList es) = .ok rs) ↔ ∀ x ∈ es, x.2.printed?.isSome := by
  rw [exists_printedEntries]
  constructor
  · intro h x hx
    exact h x (Entries.mem_of_get? ((Entries.get?_ofList hes).2 hx))
  · intro h x hx
    exact h x (Entries.mem_of_mem_ofList hx)

theorem get?_printedEntries_ofList {rs : Entries String}
    (h : printedEntries (Entries.ofList es) = .ok rs) (key s : String) :
    rs.get? key = some s ↔ ∃ x ∈ es, x.1 = key ∧ x.2.printed? = some s := by
  rw [get?_printedEntries h, Option.bind_eq_some_iff]
  constructor
  · rintro ⟨w, hw, hs⟩
    exact ⟨_, (Entries.get?_ofList hes).1 hw, rfl, hs⟩
  · rintro ⟨x, hx, rfl, hs⟩
    exact ⟨x.2, (Entries.get?_ofList hes).2 hx, hs⟩

end Evaluator

end Polyglot
