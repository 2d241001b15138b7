/-!
Text made safe inside markup: each of the five characters with a meaning there becomes an entity.
-/
namespace Polyglot.Html

def entity : Char → List Char
  | '&' => "&amp;".toList
  | '<' => "&lt;".toList
  | '>' => "&gt;".toList
  | '"' => "&quot;".toList
  | '\'' => "&#039;".toList
  | c => [c]

def escape (s : String) : String := String.ofList (s.toList.flatMap entity)

theorem not_mem_entity {c : Char} (hc : c = '<' ∨ c = '>' ∨ c = '"' ∨ c = '\'') (d : Char) :
    c ∉ entity d := by
  unfold entity
  rcases hc with rfl | rfl | rfl | rfl <;> split <;> simp_all [eq_comm]

/-- No character that opens or closes a tag or an attribute is left. -/
theorem not_mem_escape {c : Char} (hc : c = '<' ∨ c = '>' ∨ c = '"' ∨ c = '\'') (s : String) :
    c ∉ (escape s).toList := by
  simp only [escape, String.toList_ofList, List.mem_flatMap, not_exists, not_and]
  exact fun d _ => not_mem_entity hc d

end Polyglot.Html
