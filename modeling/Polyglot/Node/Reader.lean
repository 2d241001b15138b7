import Polyglot.Environment
import Polyglot.Message

/-!
Reading templates. Nodes are read up to the end of the template or up to a tag of one of some
names; the opening delimiter of that tag is taken and its name is left to whoever asked. A tag is
read from after its name to after its closing delimiter.
-/
namespace Polyglot.Node

/-- Where a list of nodes ends: at the end of the template, or before a tag of one of some names. -/
inductive Stop where
  | atEnd
  | before (names : List String)
  deriving DecidableEq

def Stop.includes : Stop → String → Bool
  | atEnd, _ => false
  | before names, name => names.contains name

/-- The parts of a phrase after its domain. -/
structure Parts where
  body : Body Node
  counted : Option (Counted Node)
  notes : Option (List Node)

def expectBlockEnd (s : Cursor) : Reading s Token := s.expect .blockEnd

/-- The end of a tag: its name after the delimiter that was taken before, and its closing
delimiter. -/
def closing (name : String) (s : Cursor) : Reading s Token :=
  (s.expect (.name name)).andThen fun _ t _ => expectBlockEnd t

/-- The text up to a tag of a given name, as a list of nodes. -/
def rawSection (name : String) (s : Cursor) : Reading s (List Node) :=
  (s.raw name).map fun content => [text content]

/-- Notes for translators, which are not looked into. -/
def notes (s : Cursor) : Reading s (Option (List Node)) :=
  s.choose (Expr.exactly (.name "notes"))
    (fun _ t _ =>
      (expectBlockEnd t).andThen fun _ u _ => (rawSection "endtrans" u).map some)
    fun t _ => .done t none

/-- The phrase of the parts that were read for the tag at a line. -/
def ofParts (p : Parts) (domain : Expr) (line : Nat) : Except Error Node := do
  Message.check p.body line
  let checked ← Phrase.ofParts p.body domain (p.counted.map (·.count)) (p.counted.bind (·.plural))
    p.notes line
  return phrase checked

/-- Only the singular body can fail a check: a plural body is read with its count. -/
theorem ofParts_eq (p : Parts) (domain : Expr) (line : Nat) :
    ofParts p domain line = (Message.check p.body line).map fun _ =>
      phrase ⟨p.body, domain, p.counted, p.notes, line⟩ := by
  rw [ofParts, Phrase.ofParts_counted]
  cases Message.check p.body line <;> rfl

/-- A node that stands for its content. -/
def always (content : List Node) : Node := branch [(.bool true, content)] none

mutual

def nodes (env : Environment) (stop : Stop) (s : Cursor) : Reading s (List Node) :=
  (s.peek 0).andThen fun token? t _ =>
    match token? with
    | none => if stop = .atEnd then .done t [] else .refuse t .endOfTemplate t.line
    | some ⟨.text content, _⟩ =>
      t.take fun _ u _ => (nodes env stop u).map (text content :: ·)
    | some ⟨.printStart, _⟩ =>
      t.take fun _ u _ =>
      (Expr.read env.options.sandboxed u).andThen fun e v _ =>
      (v.expect .printEnd).andThen fun _ w _ =>
      (nodes env stop w).map (print (env.printed e) :: ·)
    | some ⟨.blockStart, line⟩ =>
      t.take fun _ u _ =>
      u.tagName.andThen fun name v _ =>
        if stop.includes name then .done v []
        else
          v.take fun _ w _ =>
          (tag env name line w).andThen fun n x _ =>
          (nodes env stop x).map (n :: ·)
    | some ⟨x, line⟩ => .refuse t (.strayToken x) line
termination_by 16 * s.size
decreasing_by all_goals omega

/-- The rest of a tag of a given name, whose opening delimiter stands at a line. -/
def tag (env : Environment) (name : String) (line : Nat) (s : Cursor) : Reading s Node :=
  if name = "for" then loopTag env s
  else if name = "if" then branchTag env s
  else
    match env.tagRule? name with
    | some rule => ruledTag env rule name line s
    | none => .refuse s (.unknownTag name) line
termination_by 16 * s.size + 5
decreasing_by all_goals omega

def loopTag (env : Environment) (s : Cursor) : Reading s Node :=
  s.name.andThen fun target t _ =>
  (t.expect (.name "in")).andThen fun _ u _ =>
  (Expr.read env.options.sandboxed u).andThen fun e v _ =>
  (expectBlockEnd v).andThen fun _ w _ =>
  (nodes env (.before ["endfor"]) w).andThen fun body x _ =>
  (closing "endfor" x).map fun _ => loop target e body
termination_by 16 * s.size + 4
decreasing_by all_goals omega

def branchTag (env : Environment) (s : Cursor) : Reading s Node :=
  (guarded env s).andThen fun first t _ =>
  (furtherCases env t).map fun r => branch (first :: r.1) r.2
termination_by 16 * s.size + 4
decreasing_by all_goals omega

/-- A condition and the nodes it guards. -/
def guarded (env : Environment) (s : Cursor) : Reading s (Expr × List Node) :=
  (Expr.read env.options.sandboxed s).andThen fun e t _ =>
  (expectBlockEnd t).andThen fun _ u _ =>
  (nodes env (.before ["elif", "else", "endif"]) u).map fun body => (e, body)
termination_by 16 * s.size + 3
decreasing_by all_goals omega

/-- The cases after the first one, and the nodes for when no case holds. -/
def furtherCases (env : Environment) (s : Cursor) :
    Reading s (List (Expr × List Node) × Option (List Node)) :=
  s.takeName fun name t _ =>
    if name = "elif" then
      (guarded env t).andThen fun case u _ =>
      (furtherCases env u).map fun r => (case :: r.1, r.2)
    else if name = "else" then
      (expectBlockEnd t).andThen fun _ u _ =>
      (nodes env (.before ["endif"]) u).andThen fun body v _ =>
      (closing "endif" v).map fun _ => ([], some body)
    else if name = "endif" then (expectBlockEnd t).map fun _ => ([], none)
    else .refuse t (.strayBranch name) s.here
termination_by 16 * s.size + 2
decreasing_by all_goals omega

def ruledTag (env : Environment) (rule : TagRule) (name : String) (line : Nat) (s : Cursor) :
    Reading s Node :=
  match rule with
  | .phrase =>
    (s.expect (.name "from")).andThen fun _ t _ =>
    (Expr.read env.options.sandboxed t).andThen fun domain u _ =>
    (parts env u).andThen fun p v _ =>
    (expectBlockEnd v).andThen fun _ w _ =>
      match ofParts p domain line with
      | .ok n => .done w n
      | .error e => .fail w e
  | .print =>
    (Expr.read env.options.sandboxed s).andThen fun e t _ =>
    (expectBlockEnd t).map fun _ => print e
  | .raw =>
    (expectBlockEnd s).andThen fun _ t _ =>
    (rawSection ("end" ++ name) t).andThen fun content u _ =>
    (closing ("end" ++ name) u).map fun _ => always content
  | .wrap =>
    (expectBlockEnd s).andThen fun _ t _ =>
    (nodes env (.before ["end" ++ name]) t).andThen fun content u _ =>
    (closing ("end" ++ name) u).map fun _ => always content
termination_by 16 * s.size + 4
decreasing_by all_goals omega

/-- The body of a phrase, in the tag itself or up to its end, and in the second case the plural body
and the notes. -/
def parts (env : Environment) (s : Cursor) : Reading s Parts :=
  (s.sees .blockEnd).andThen fun isBlock t _ =>
    if isBlock then
      (expectBlockEnd t).andThen fun _ u _ =>
      (nodes env (.before ["plural", "notes", "endtrans"]) u).andThen fun body v _ =>
      (counted env v).andThen fun counted w _ =>
      (notes w).andThen fun notes x _ =>
      (x.expect (.name "endtrans")).map fun _ => ⟨.block body, counted, notes⟩
    else (Expr.read env.options.sandboxed t).map fun e => ⟨.inline e, none, none⟩
termination_by 16 * s.size + 3
decreasing_by all_goals omega

/-- The count and the plural body. -/
def counted (env : Environment) (s : Cursor) : Reading s (Option (Counted Node)) :=
  s.choose (Expr.exactly (.name "plural"))
    (fun _ t _ =>
      (Expr.read env.options.sandboxed t).andThen fun count u _ =>
      (expectBlockEnd u).andThen fun _ v _ =>
      (nodes env (.before ["notes", "endtrans"]) v).map fun body => some ⟨count, some body⟩)
    fun t _ => .done t none
termination_by 16 * s.size + 2
decreasing_by all_goals omega

end

/-- Reads a template to its end. -/
def read (env : Environment) (s : Cursor) : Reading s (List Node) := nodes env .atEnd s

end Polyglot.Node
