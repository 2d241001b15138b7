import Polyglot.Proofs.ReadingProgress
import Polyglot.Template

/-!
Reading always ends. A token is never empty and never comes back, every expression takes one, and so
does every turn of a loop that is not its last. What a template or an expression is read to is thus
decided after no more turns of a loop and no deeper calls than there is text for, and after no more
tokens than the text has bytes.
-/
namespace Polyglot.Environment

/-- Reading in an environment gets on all the time, and so it ends. -/
structure AlwaysEnds (env : Environment) : Prop where
  /-- A token that is found is at least one byte of the text. -/
  found {σ τ : Scanner} {token : Token} (h : σ.next = (.ok (some token), τ)) :
    τ.rest <:+ σ.rest ∧ τ.bytes < σ.bytes
  /-- However a cursor gets on, no token is put back. -/
  forward {raws : Bool} {s t : Cursor} {ts : List Token} (h : s.Passes raws ts t) :
    s.Forward ts t
  /-- What is taken is what comes next in the text, unless some of it is passed over. -/
  inOrder {s t : Cursor} {ts : List Token} (h : s.Passes false ts t) :
    s.stream = ⟨ts ++ t.stream.tokens, t.stream.error?⟩
  /-- What is left gets less by what is taken. -/
  measure {raws : Bool} {s t : Cursor} {ts : List Token} (h : s.Passes raws ts t) :
    ts.length + t.size ≤ s.size
  action (s : Cursor) (action : Cursor.Action) :
    (action.read s).Progresses false fun _ => if action.takes then 1 else 0
  raw (s : Cursor) (name : String) : (s.raw name).Progresses true fun _ => 0
  tag (name : String) (line : Nat) (s : Cursor) :
    (Node.tag env name line s).Progresses true fun _ => 0
  /-- An expression that is read takes at least one token. -/
  expression (s : Cursor) : (Expr.read env.options.sandboxed s).Progresses false fun _ => 1
  operators (l : Level) :
    Turn.Ends false 0 ((Expr.readers env.options.sandboxed).operatorTurn l)
      (Expr.operators env.options.sandboxed l)
  filters :
    Turn.Ends false 0 ((Expr.readers env.options.sandboxed).filterTurn env.options.sandboxed)
      (Expr.filters env.options.sandboxed)
  selectors :
    Turn.Ends false 0 (Expr.readers env.options.sandboxed).selectorTurn
      (Expr.selectors env.options.sandboxed)
  /-- In a list, also the last turn takes a token. -/
  items :
    Turn.Ends false 1 (fun _ => (Expr.readers env.options.sandboxed).itemTurn)
      (fun _ => Expr.items env.options.sandboxed)
  entries :
    Turn.Ends false 1 (fun _ => (Expr.readers env.options.sandboxed).entryTurn)
      (fun _ => Expr.entries env.options.sandboxed)
  nodes (stop : Node.Stop) :
    Turn.Ends true 0 (fun _ => (Node.readers env).nodeTurn env stop)
      (fun _ => Node.nodes env stop)
  furtherCases :
    Turn.Ends true 1 (fun _ => (Node.readers env).caseTurn) (fun _ => Node.furtherCases env)
  /-- Whatever would answer calls that are nested deeper, an expression is read without them. -/
  expressionDepth (r : Expr.Readers) (s : Cursor) :
    (r.nested env.options.sandboxed (16 * s.size + 9)).level .or s =
      Expr.read env.options.sandboxed s
  nodesDepth (r : Node.Readers) (stop : Node.Stop) (s : Cursor) :
    (r.nested env (16 * s.size + 1)).nodes stop s = Node.nodes env stop s
  /-- A template is read to nodes or an error, after no more tokens than it has bytes. -/
  template (source : String) :
    ((∃ ns, env.parse source = .ok ns) ∨ ∃ e, env.parse source = .error e) ∧
      (Node.read env (.ofTemplate source env.options.trimBlocks)).FindsAtMost true
        source.utf8ByteSize
  /-- So is an expression that stands alone. -/
  standalone (source : String) :
    ((∃ e, env.parseExpr source = .ok e) ∨ ∃ e, env.parseExpr source = .error e) ∧
      (Expr.readAlone env.options.sandboxed (.ofExpression source)).FindsAtMost false
        source.utf8ByteSize

/-- At its start no token of a text was found yet, and every character is at least one byte. -/
theorem findsAtMost_of_progresses {α : Type} {raws : Bool} {least : α → Nat} {source : String}
    {mode : Mode} {trims : Bool} {r : Reading ⟨[], ⟨source.toList, 1, mode, trims⟩, 1⟩ α}
    (h : r.Progresses raws least) : r.FindsAtMost raws source.utf8ByteSize := by
  obtain ⟨ts, hpasses, _⟩ := h
  obtain ⟨found, hfound, hle⟩ := hpasses.forward.kept
  have hlength := congrArg List.length hfound
  rw [List.length_append, List.length_append, List.length_nil] at hlength
  have hbytes := Scanner.length_le_bytes source.toList
  rw [String.ofList_toList] at hbytes
  refine ⟨ts, hpasses, ?_⟩
  dsimp only at hle
  omega

theorem always_ends (env : Environment) : env.AlwaysEnds where
  found h := ⟨Scanner.suffix_of_next h, Scanner.bytes_next_lt h⟩
  forward h := h.forward
  inOrder h := h.stream_eq
  measure h := h.forward.size_le
  action := Cursor.Action.progresses_read
  raw := Cursor.progresses_raw
  tag := (Node.readers_keep_progressing env).tag
  expression := Expr.progresses_read _
  operators := Expr.ends_operators _
  filters := Expr.ends_filters _
  selectors := Expr.ends_selectors _
  items := Expr.ends_items _
  entries := Expr.ends_entries _
  nodes := Node.ends_nodes env
  furtherCases := Node.ends_furtherCases env
  expressionDepth := Expr.nested_level _
  nodesDepth := Node.nested_nodes env
  template _ :=
    ⟨Reading.ok_or_error _,
      findsAtMost_of_progresses ((Node.readers_keep_progressing env).nodes _ _)⟩
  standalone _ := ⟨Reading.ok_or_error _, findsAtMost_of_progresses (Expr.progresses_readAlone _ _)⟩

/-- Every byte may be a token. -/
example : (Scanner.ofExpression "([").stream.tokens.length = "([".utf8ByteSize := by cbv

end Polyglot.Environment
