import Polyglot.Entries

/-!
Filling in the placeholders of a translated message. A placeholder is a text without percent signs
between two percent signs; those with a replacement are replaced from left to right, and nothing
that was put in is looked at again.
-/
namespace Polyglot.Placeholder

def fillChars (replacements : Entries String) : List Char → List Char
  | [] => []
  | c :: rest =>
    if c = '%' then
      match _h : rest.dropWhile (· != '%') with
      | [] => c :: rest
      | _ :: after =>
        let key := '%' :: rest.takeWhile (· != '%') ++ ['%']
        match replacements.get? (String.ofList key) with
        | some value => value.toList ++ fillChars replacements after
        | none => c :: fillChars replacements rest
    else c :: fillChars replacements rest
termination_by cs => cs.length
decreasing_by
  · have := (List.dropWhile_suffix (l := rest) (· != '%')).length_le
    simp_all only [List.length_cons]
    omega
  · simp
  · simp

def fill (replacements : Entries String) (message : String) : String :=
  String.ofList (fillChars replacements message.toList)

end Polyglot.Placeholder
