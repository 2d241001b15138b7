import Polyglot.Node.Reader
import Polyglot.Proofs.LoopTurns

/-!
The readers and their calls. The readers for the parts of an expression call each other, and so do
those for the parts of a template. Each of them is written here with the readers that it calls as a
parameter, and the loops are written by their turns; put in for the parameter, the readers
themselves come out again. A turn and what goes on after it are together what the recursion says.
-/
namespace Polyglot

namespace Expr

/-- A reader for each part of an expression. -/
@[ext]
structure Readers where
  level : Level → (s : Cursor) → Reading s Expr
  operators : Level → Expr → (s : Cursor) → Reading s Expr
  filters : Expr → (s : Cursor) → Reading s Expr
  selectors : Expr → (s : Cursor) → Reading s Expr
  primary : (s : Cursor) → Reading s Expr
  arguments : Symbol → (s : Cursor) → Reading s (List Expr)
  items : (s : Cursor) → Reading s (List Expr)
  pairs : (s : Cursor) → Reading s (List (Expr × Expr))
  entries : (s : Cursor) → Reading s (List (Expr × Expr))

/-- The readers that expressions are read by. -/
def readers (checks : Bool) : Readers where
  level := level checks
  operators := operators checks
  filters := filters checks
  selectors := selectors checks
  primary := primary checks
  arguments := arguments checks
  items := items checks
  pairs := pairs checks
  entries := entries checks

namespace Readers

variable (r : Readers)

/-- One operator of a level and its operand, after a first operand. -/
def operatorTurn (l : Level) (e : Expr) (s : Cursor) : Reading s (Turn Expr Expr) :=
  s.choose l.operator?
    (fun op t _ => (r.level l.tighter t).map fun x => .again (binary e op x) id)
    fun t _ => .done t (.ended e)

/-- One filter after an expression. -/
def filterTurn (checks : Bool) (e : Expr) (s : Cursor) : Reading s (Turn Expr Expr) :=
  s.choose (exactly (.symbol .pipe))
    (fun _ t _ =>
      t.name.andThen fun n u _ =>
      u.choose (exactly (.symbol .openParen))
        (fun _ v _ =>
          (r.arguments .closeParen v).map fun args => .again (filtered checks e n args) id)
        fun v _ => .done v (.again (filtered checks e n []) id))
    fun t _ => .done t (.ended e)

/-- One member, index or call after an expression. -/
def selectorTurn (e : Expr) (s : Cursor) : Reading s (Turn Expr Expr) :=
  s.choose (exactly (.symbol .dot))
    (fun _ t _ => t.name.map fun key => .again (member e key) id)
    fun t _ =>
  t.choose (exactly (.symbol .openBracket))
    (fun _ u _ =>
      (r.level .or u).andThen fun i v _ =>
      (v.expect (.symbol .closeBracket)).map fun _ => .again (index e i) id)
    fun u _ =>
  u.choose (fun x => if x = .symbol .openParen then e.name? else none)
    (fun n v _ => (r.arguments .closeParen v).map fun args => .again (call n args) id)
    fun v _ => .done v (.ended e)

/-- One expression of a list, and the comma after it. -/
def itemTurn (s : Cursor) : Reading s (Turn Unit (List Expr)) :=
  (r.level .or s).andThen fun e t _ =>
  t.choose (exactly (.symbol .comma))
    (fun _ u _ => .done u (.again () (e :: ·)))
    fun u _ => .done u (.ended [e])

/-- One entry of a map, and the comma after it. -/
def entryTurn (s : Cursor) : Reading s (Turn Unit (List (Expr × Expr))) :=
  (r.level .or s).andThen fun key t _ =>
  (t.expect (.symbol .colon)).andThen fun _ u _ =>
  (r.level .or u).andThen fun e v _ =>
  v.choose (exactly (.symbol .comma))
    (fun _ w _ => .done w (.again () ((key, e) :: ·)))
    fun w _ => .done w (.ended [(key, e)])

/-- The readers that call the given ones. -/
def calling (checks : Bool) : Readers where
  level l s :=
    s.choose l.sign?
      (fun op t _ => (r.level l t).map (unary op))
      fun t _ =>
        if _ : l = .sign then
          (r.primary t).andThen fun e u _ =>
          (r.selectors e u).andThen fun e v _ =>
          r.filters e v
        else
          (r.level l.tighter t).andThen fun e u _ => r.operators l e u
  operators l e s := (r.operatorTurn l e s).andThen fun x t _ => x.goesOn (r.operators l) t
  filters e s := (r.filterTurn checks e s).andThen fun x t _ => x.goesOn r.filters t
  selectors e s := (r.selectorTurn e s).andThen fun x t _ => x.goesOn r.selectors t
  primary s :=
    s.take fun token t _ =>
      match token.lexeme with
      | .str value => .done t (text value)
      | .int i => .done t (int i)
      | .name n => .done t (ofName n)
      | .symbol .openParen =>
        (r.level .or t).andThen fun e u _ => (u.expect (.symbol .closeParen)).map fun _ => e
      | .symbol .openBracket => (r.arguments .closeBracket t).map list
      | .symbol .openBrace => (r.pairs t).map map
      | x => .refuse t (.expectedExpression x) token.line
  arguments close s :=
    s.choose (exactly (.symbol close))
      (fun _ t _ => .done t [])
      fun t _ => (r.items t).andThen fun es u _ => (u.expect (.symbol close)).map fun _ => es
  items s := (r.itemTurn s).andThen fun x t _ => x.goesOn (fun _ => r.items) t
  pairs s :=
    s.choose (exactly (.symbol .closeBrace))
      (fun _ t _ => .done t [])
      fun t _ =>
        (r.entries t).andThen fun es u _ => (u.expect (.symbol .closeBrace)).map fun _ => es
  entries s := (r.entryTurn s).andThen fun x t _ => x.goesOn (fun _ => r.entries) t

/-! A loop with its turn written out. -/

variable (checks : Bool)

theorem calling_operators (l : Level) (e : Expr) (s : Cursor) :
    (r.calling checks).operators l e s =
      s.choose l.operator?
        (fun op t _ =>
          (r.level l.tighter t).andThen fun x u _ => r.operators l (binary e op x) u)
        fun t _ => .done t e := by
  simp [calling, operatorTurn, Turn.goesOn, Reading.map_id]

theorem calling_filters (e : Expr) (s : Cursor) :
    (r.calling checks).filters e s =
      s.choose (exactly (.symbol .pipe))
        (fun _ t _ =>
          t.name.andThen fun n u _ =>
          u.choose (exactly (.symbol .openParen))
            (fun _ v _ =>
              (r.arguments .closeParen v).andThen fun args w _ =>
              r.filters (filtered checks e n args) w)
            fun v _ => r.filters (filtered checks e n []) v)
        fun t _ => .done t e := by
  simp [calling, filterTurn, Turn.goesOn, Reading.map_id]

theorem calling_selectors (e : Expr) (s : Cursor) :
    (r.calling checks).selectors e s =
      s.choose (exactly (.symbol .dot))
        (fun _ t _ => t.name.andThen fun key u _ => r.selectors (member e key) u)
        fun t _ =>
      t.choose (exactly (.symbol .openBracket))
        (fun _ u _ =>
          (r.level .or u).andThen fun i v _ =>
          (v.expect (.symbol .closeBracket)).andThen fun _ w _ => r.selectors (index e i) w)
        fun u _ =>
      u.choose (fun x => if x = .symbol .openParen then e.name? else none)
        (fun n v _ =>
          (r.arguments .closeParen v).andThen fun args w _ => r.selectors (call n args) w)
        fun v _ => .done v e := by
  simp [calling, selectorTurn, Turn.goesOn, Reading.map_id]

theorem calling_items (s : Cursor) :
    (r.calling checks).items s =
      (r.level .or s).andThen fun e t _ =>
      t.choose (exactly (.symbol .comma))
        (fun _ u _ => (r.items u).map (e :: ·))
        fun u _ => .done u [e] := by
  simp [calling, itemTurn, Turn.goesOn]

theorem calling_entries (s : Cursor) :
    (r.calling checks).entries s =
      (r.level .or s).andThen fun key t _ =>
      (t.expect (.symbol .colon)).andThen fun _ u _ =>
      (r.level .or u).andThen fun e v _ =>
      v.choose (exactly (.symbol .comma))
        (fun _ w _ => (r.entries w).map ((key, e) :: ·))
        fun w _ => .done w [(key, e)] := by
  simp [calling, entryTurn, Turn.goesOn]

end Readers

variable (checks : Bool)

theorem unfolds_operators (l : Level) :
    Turn.Unfolds ((readers checks).operatorTurn l) (operators checks l) := fun e s =>
  (operators.eq_def checks l e s).trans ((readers checks).calling_operators checks l e s).symm

theorem unfolds_filters :
    Turn.Unfolds ((readers checks).filterTurn checks) (filters checks) := fun e s =>
  (filters.eq_def checks e s).trans ((readers checks).calling_filters checks e s).symm

theorem unfolds_selectors :
    Turn.Unfolds (readers checks).selectorTurn (selectors checks) := fun e s =>
  (selectors.eq_def checks e s).trans ((readers checks).calling_selectors checks e s).symm

theorem unfolds_items :
    Turn.Unfolds (fun _ => (readers checks).itemTurn) (fun _ => items checks) := fun _ s =>
  (items.eq_def checks s).trans ((readers checks).calling_items checks s).symm

theorem unfolds_entries :
    Turn.Unfolds (fun _ => (readers checks).entryTurn) (fun _ => entries checks) := fun _ s =>
  (entries.eq_def checks s).trans ((readers checks).calling_entries checks s).symm

/-- Calling themselves, the readers are what they are. -/
theorem calling_readers : (readers checks).calling checks = readers checks := by
  ext1
  · funext l s
    exact (level.eq_def checks l s).symm
  · funext l e s
    exact (unfolds_operators checks l e s).symm
  · funext e s
    exact (unfolds_filters checks e s).symm
  · funext e s
    exact (unfolds_selectors checks e s).symm
  · funext s
    exact (primary.eq_def checks s).symm
  · funext close s
    exact (arguments.eq_def checks close s).symm
  · funext s
    exact (unfolds_items checks () s).symm
  · funext s
    exact (pairs.eq_def checks s).symm
  · funext s
    exact (unfolds_entries checks () s).symm

end Expr

namespace Node

/-- A reader for each part of a template. -/
@[ext]
structure Readers where
  nodes : Stop → (s : Cursor) → Reading s (List Node)
  tag : String → Nat → (s : Cursor) → Reading s Node
  loopTag : (s : Cursor) → Reading s Node
  branchTag : (s : Cursor) → Reading s Node
  guarded : (s : Cursor) → Reading s (Expr × List Node)
  furtherCases : (s : Cursor) → Reading s (List (Expr × List Node) × Option (List Node))
  ruledTag : TagRule → String → Nat → (s : Cursor) → Reading s Node
  parts : (s : Cursor) → Reading s Parts
  counted : (s : Cursor) → Reading s (Option (Counted Node))

/-- The readers that templates are read by. -/
def readers (env : Environment) : Readers where
  nodes := nodes env
  tag := tag env
  loopTag := loopTag env
  branchTag := branchTag env
  guarded := guarded env
  furtherCases := furtherCases env
  ruledTag := ruledTag env
  parts := parts env
  counted := counted env

namespace Readers

variable (env : Environment) (r : Readers)

/-- One node, unless the nodes end here. -/
def nodeTurn (stop : Stop) (s : Cursor) : Reading s (Turn Unit (List Node)) :=
  (s.peek 0).andThen fun token? t _ =>
    match token? with
    | none => if stop = .atEnd then .done t (.ended []) else .refuse t .endOfTemplate t.line
    | some ⟨.text content, _⟩ => t.take fun _ u _ => .done u (.again () (text content :: ·))
    | some ⟨.printStart, _⟩ =>
      t.take fun _ u _ =>
      (Expr.read env.options.sandboxed u).andThen fun e v _ =>
      (v.expect .printEnd).map fun _ => .again () (print (env.printed e) :: ·)
    | some ⟨.blockStart, line⟩ =>
      t.take fun _ u _ =>
      u.tagName.andThen fun name v _ =>
        if stop.includes name then .done v (.ended [])
        else v.take fun _ w _ => (r.tag name line w).map fun n => .again () (n :: ·)
    | some ⟨x, line⟩ => .refuse t (.strayToken x) line

/-- One further case of a branch, or what ends the branch. -/
def caseTurn (s : Cursor) :
    Reading s (Turn Unit (List (Expr × List Node) × Option (List Node))) :=
  s.takeName fun name t _ =>
    if name = "elif" then
      (r.guarded t).map fun case => .again () fun x => (case :: x.1, x.2)
    else if name = "else" then
      (expectBlockEnd t).andThen fun _ u _ =>
      (r.nodes (.before ["endif"]) u).andThen fun body v _ =>
      (closing "endif" v).map fun _ => .ended ([], some body)
    else if name = "endif" then (expectBlockEnd t).map fun _ => .ended ([], none)
    else .refuse t (.strayBranch name) s.here

/-- The readers that call the given ones. -/
def calling : Readers where
  nodes stop s :=
    (r.nodeTurn env stop s).andThen fun x t _ => x.goesOn (fun _ => r.nodes stop) t
  tag name line s :=
    if name = "for" then r.loopTag s
    else if name = "if" then r.branchTag s
    else
      match env.tagRule? name with
      | some rule => r.ruledTag rule name line s
      | none => .refuse s (.unknownTag name) line
  loopTag s :=
    s.name.andThen fun target t _ =>
    (t.expect (.name "in")).andThen fun _ u _ =>
    (Expr.read env.options.sandboxed u).andThen fun e v _ =>
    (expectBlockEnd v).andThen fun _ w _ =>
    (r.nodes (.before ["endfor"]) w).andThen fun body x _ =>
    (closing "endfor" x).map fun _ => loop target e body
  branchTag s :=
    (r.guarded s).andThen fun first t _ =>
    (r.furtherCases t).map fun x => branch (first :: x.1) x.2
  guarded s :=
    (Expr.read env.options.sandboxed s).andThen fun e t _ =>
    (expectBlockEnd t).andThen fun _ u _ =>
    (r.nodes (.before ["elif", "else", "endif"]) u).map fun body => (e, body)
  furtherCases s := (r.caseTurn s).andThen fun x t _ => x.goesOn (fun _ => r.furtherCases) t
  ruledTag rule name line s :=
    match rule with
    | .phrase =>
      (s.expect (.name "from")).andThen fun _ t _ =>
      (Expr.read env.options.sandboxed t).andThen fun domain u _ =>
      (r.parts u).andThen fun p v _ =>
      (expectBlockEnd v).andThen fun _ w _ =>
        match ofParts p domain line with
        | .ok n => .done w n
        | .error e => .fail w e
    | .print =>
      (Expr.read env.options.sandboxed s).andThen fun e t _ =>
      (expectBlockEnd t).map fun _ => print e
    | .raw =>
      (expectBlockEnd s).andThen fun _ t _ =>
      (rawSection ("end" ++ name) t).andThen fun content u _ =>
      (closing ("end" ++ name) u).map fun _ => always content
    | .wrap =>
      (expectBlockEnd s).andThen fun _ t _ =>
      (r.nodes (.before ["end" ++ name]) t).andThen fun content u _ =>
      (closing ("end" ++ name) u).map fun _ => always content
  parts s :=
    (s.sees .blockEnd).andThen fun isBlock t _ =>
      if isBlock then
        (expectBlockEnd t).andThen fun _ u _ =>
        (r.nodes (.before ["plural", "notes", "endtrans"]) u).andThen fun body v _ =>
        (r.counted v).andThen fun counted w _ =>
        (notes w).andThen fun notes x _ =>
        (x.expect (.name "endtrans")).map fun _ => ⟨.block body, counted, notes⟩
      else (Expr.read env.options.sandboxed t).map fun e => ⟨.inline e, none, none⟩
  counted s :=
    s.choose (Expr.exactly (.name "plural"))
      (fun _ t _ =>
        (Expr.read env.options.sandboxed t).andThen fun count u _ =>
        (expectBlockEnd u).andThen fun _ v _ =>
        (r.nodes (.before ["notes", "endtrans"]) v).map fun body => some ⟨count, some body⟩)
      fun t _ => .done t none

/-! A loop with its turn written out. -/

theorem calling_nodes (stop : Stop) (s : Cursor) :
    (r.calling env).nodes stop s =
      (s.peek 0).andThen fun token? t _ =>
        match token? with
        | none => if stop = .atEnd then .done t [] else .refuse t .endOfTemplate t.line
        | some ⟨.text content, _⟩ =>
          t.take fun _ u _ => (r.nodes stop u).map (text content :: ·)
        | some ⟨.printStart, _⟩ =>
          t.take fun _ u _ =>
          (Expr.read env.options.sandboxed u).andThen fun e v _ =>
          (v.expect .printEnd).andThen fun _ w _ =>
          (r.nodes stop w).map (print (env.printed e) :: ·)
        | some ⟨.blockStart, line⟩ =>
          t.take fun _ u _ =>
          u.tagName.andThen fun name v _ =>
            if stop.includes name then .done v []
            else
              v.take fun _ w _ =>
              (r.tag name line w).andThen fun n x _ => (r.nodes stop x).map (n :: ·)
        | some ⟨x, line⟩ => .refuse t (.strayToken x) line := by
  simp only [calling, nodeTurn, Reading.andThen_assoc]
  refine congrArg _ ?_
  funext token? t h
  split <;> simp [Turn.goesOn]

theorem calling_furtherCases (s : Cursor) :
    (r.calling env).furtherCases s =
      s.takeName fun name t _ =>
        if name = "elif" then
          (r.guarded t).andThen fun case u _ =>
          (r.furtherCases u).map fun x => (case :: x.1, x.2)
        else if name = "else" then
          (expectBlockEnd t).andThen fun _ u _ =>
          (r.nodes (.before ["endif"]) u).andThen fun body v _ =>
          (closing "endif" v).map fun _ => ([], some body)
        else if name = "endif" then (expectBlockEnd t).map fun _ => ([], none)
        else .refuse t (.strayBranch name) s.here := by
  simp [calling, caseTurn, Turn.goesOn]

end Readers

variable (env : Environment)

theorem unfolds_nodes (stop : Stop) :
    Turn.Unfolds (fun _ => (readers env).nodeTurn env stop) (fun _ => nodes env stop) := fun _ s =>
  (nodes.eq_def env stop s).trans ((readers env).calling_nodes env stop s).symm

theorem unfolds_furtherCases :
    Turn.Unfolds (fun _ => (readers env).caseTurn) (fun _ => furtherCases env) := fun _ s =>
  (furtherCases.eq_def env s).trans ((readers env).calling_furtherCases env s).symm

/-- Calling themselves, the readers are what they are. -/
theorem calling_readers : (readers env).calling env = readers env := by
  ext1
  · funext stop s
    exact (unfolds_nodes env stop () s).symm
  · funext name line s
    exact (tag.eq_def env name line s).symm
  · funext s
    exact (loopTag.eq_def env s).symm
  · funext s
    exact (branchTag.eq_def env s).symm
  · funext s
    exact (guarded.eq_def env s).symm
  · funext s
    exact (unfolds_furtherCases env () s).symm
  · funext rule name line s
    exact (ruledTag.eq_def env rule name line s).symm
  · funext s
    exact (parts.eq_def env s).symm
  · funext s
    exact (counted.eq_def env s).symm

end Node

end Polyglot
