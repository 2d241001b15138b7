import Mathlib.Data.List.Chain
import Mathlib.Data.List.Infix
import Polyglot.Proofs.NodeTrees
import Polyglot.Proofs.ScriptLexemes

/-!
The source that spells a template. Texts stand as they are, expressions in their script form, and
every word of a tag after one space. A phrase that is read is given the line of its opening tag, so
each node also has a form with the lines that its source puts its phrases on.
-/
namespace Polyglot

namespace Expr

/-- An expression that its script form is read back as. -/
structure IsSpelled (function : String → String) (e : Expr) : Prop where
  plain : e.Every IsPlain
  writable : e.Every (IsWritable function)

end Expr

namespace Node

/-- Words with a space before each of them. -/
def spaced : List String → String
  | [] => ""
  | w :: rest => " " ++ w ++ spaced rest

def blockTag (words : List String) : String := "\x7b%" ++ spaced words ++ " %\x7d"

/-- How many lines further on a text ends. -/
def breaks (s : String) : Nat := Blank.lineBreaks s.toList

theorem breaks_append (s t : String) : breaks (s ++ t) = breaks s + breaks t := by
  rw [breaks, String.toList_append, Blank.lineBreaks_append]
  rfl

mutual

/-- The source of a node, where `function` tells the function that a filter is bound to. -/
def source (function : String → String) : Node → String
  | text s => s
  | print e => "\x7b\x7b " ++ e.script function ++ " \x7d\x7d"
  | loop target items body =>
    blockTag ["for", target, "in", items.script function] ++ sources function body ++
      blockTag ["endfor"]
  | branch cases otherwise =>
    caseSources function "if" cases ++ fallbackSource function otherwise ++ blockTag ["endif"]
  | phrase p => phraseSource function p

def sources (function : String → String) : List Node → String
  | [] => ""
  | n :: rest => source function n ++ sources function rest

/-- The cases of a branch. Only the first one has a tag of another name than `elif`. -/
def caseSources (function : String → String) (opener : String) :
    List (Expr × List Node) → String
  | [] => ""
  | (condition, body) :: rest =>
    blockTag [opener, condition.script function] ++ sources function body ++
      caseSources function "elif" rest

def fallbackSource (function : String → String) : Option (List Node) → String
  | none => ""
  | some body => blockTag ["else"] ++ sources function body

def phraseSource (function : String → String) : Phrase Node → String
  | ⟨.inline e, domain, _, _, _⟩ =>
    blockTag ["trans", "from", domain.script function, e.script function]
  | ⟨.block nodes, domain, counted, notes, _⟩ =>
    blockTag ["trans", "from", domain.script function] ++ sources function nodes ++
      countedSource function counted ++ notesSource function notes ++ blockTag ["endtrans"]

def countedSource (function : String → String) : Option (Counted Node) → String
  | some ⟨count, some plural⟩ =>
    blockTag ["plural", count.script function] ++ sources function plural
  | _ => ""

def notesSource (function : String → String) : Option (List Node) → String
  | none => ""
  | some notes => blockTag ["notes"] ++ sources function notes

end

mutual

/-- The node whose source begins at a line, with the lines that its phrases begin at. -/
def lined (function : String → String) (line : Nat) : Node → Node
  | text s => text s
  | print e => print e
  | loop target items body =>
    loop target items
      (linedNodes function
        (line + breaks (blockTag ["for", target, "in", items.script function])) body)
  | branch cases otherwise =>
    branch (linedCases function "if" line cases)
      (linedFallback function (line + breaks (caseSources function "if" cases)) otherwise)
  | phrase p => phrase (linedPhrase function line p)

def linedNodes (function : String → String) (line : Nat) : List Node → List Node
  | [] => []
  | n :: rest =>
    lined function line n :: linedNodes function (line + breaks (source function n)) rest

def linedCases (function : String → String) (opener : String) (line : Nat) :
    List (Expr × List Node) → List (Expr × List Node)
  | [] => []
  | (condition, body) :: rest =>
    let start := line + breaks (blockTag [opener, condition.script function])
    (condition, linedNodes function start body) ::
      linedCases function "elif" (start + breaks (sources function body)) rest

def linedFallback (function : String → String) (line : Nat) :
    Option (List Node) → Option (List Node)
  | none => none
  | some body => some (linedNodes function (line + breaks (blockTag ["else"])) body)

def linedPhrase (function : String → String) (line : Nat) : Phrase Node → Phrase Node
  | ⟨.inline e, domain, counted, notes, _⟩ => ⟨.inline e, domain, counted, notes, line⟩
  | ⟨.block nodes, domain, counted, notes, _⟩ =>
    let start := line + breaks (blockTag ["trans", "from", domain.script function])
    ⟨.block (linedNodes function start nodes), domain,
      linedCounted function (start + breaks (sources function nodes)) counted, notes, line⟩

def linedCounted (function : String → String) (line : Nat) :
    Option (Counted Node) → Option (Counted Node)
  | none => none
  | some ⟨count, none⟩ => some ⟨count, none⟩
  | some ⟨count, some plural⟩ =>
    let start := line + breaks (blockTag ["plural", count.script function])
    some ⟨count, some (linedNodes function start plural)⟩

end

def isText : Node → Bool
  | text _ => true
  | _ => false

/-- No two texts stand next to each other, where they would be read as one. -/
def TextsApart (ns : List Node) : Prop :=
  ns.IsChain fun m n => m.isText = true → n.isText = false

/-- A text in which no tag opens, also not together with the text after it. -/
structure IsClean (s : String) : Prop where
  ne_empty : s ≠ ""
  no_print : ¬ ['\x7b', '\x7b'] <:+: s.toList
  no_block : ¬ ['\x7b', '%'] <:+: s.toList
  last : ¬ ['\x7b'] <:+ s.toList

instance (s : String) : Decidable (IsClean s) :=
  decidable_of_iff (s ≠ "" ∧ ¬ ['\x7b', '\x7b'] <:+: s.toList ∧ ¬ ['\x7b', '%'] <:+: s.toList ∧
    ¬ ['\x7b'] <:+ s.toList)
    ⟨fun h => ⟨h.1, h.2.1, h.2.2.1, h.2.2.2⟩, fun h => ⟨h.ne_empty, h.no_print, h.no_block, h.last⟩⟩

/-- A text or a printed name. -/
def IsSimple : Node → Prop
  | text _ => True
  | print (.name _) => True
  | _ => False

/-- Notes are one text in which no block tag opens; they are taken as they stand. -/
def AreNotes (notes? : Option (List Node)) : Prop :=
  ∀ ns ∈ notes?, ∃ s, ns = [text s] ∧ ¬ ['\x7b', '%'] <:+: s.toList

/-- What the source asks of one phrase, apart from the nodes inside it. The message in a tag must
not begin with a word that would join it to the domain. -/
inductive IsSpelledPhrase (function : String → String) : Phrase Node → Prop
  | inline {e domain : Expr} {line : Nat} (hatomic : e.isAtomic = true)
      (he : e.IsSpelled function) (hand : e ≠ .name "and") (hor : e ≠ .name "or")
      (hdomain : domain.IsSpelled function) :
      IsSpelledPhrase function ⟨.inline e, domain, none, none, line⟩
  | block {nodes : List Node} {domain : Expr} {counted : Option (Counted Node)}
      {notes : Option (List Node)} {line : Nat} (hsimple : ∀ n ∈ nodes, n.IsSimple)
      (hapart : TextsApart nodes) (hdomain : domain.IsSpelled function)
      (hcounted : ∀ c ∈ counted, c.count.IsSpelled function ∧
        ∃ plural, c.plural = some plural ∧ TextsApart plural)
      (hnotes : AreNotes notes) :
      IsSpelledPhrase function ⟨.block nodes, domain, counted, notes, line⟩

/-- What the source asks of one node, apart from those inside it. -/
def IsSpelled (function : String → String) : Node → Prop
  | text s => IsClean s
  | print e => e.IsSpelled function
  | loop target items body =>
    Scanner.isIdentifier target = true ∧ items.IsSpelled function ∧ TextsApart body
  | branch cases otherwise =>
    cases ≠ [] ∧ (∀ c ∈ cases, c.1.IsSpelled function ∧ TextsApart c.2) ∧
      ∀ body ∈ otherwise, TextsApart body
  | phrase p => IsSpelledPhrase function p

end Node

end Polyglot
