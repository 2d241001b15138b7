import Polyglot.Proofs.CompiledPhrases
import Polyglot.Proofs.ScriptBehaviour

/-!
The rows of a script. Every text and every print is written as one row, a phrase as comments and one
row below them, and a loop or a branch as rows around its bodies, which stand four blanks further
in. No line break of a text, a string or notes gets into a row, so no row is broken by what a
template holds, and no comment runs into code. Writing statements ends at the depth at which it
began, wherever they stand.
-/
namespace Polyglot

namespace Node

/-- A branch has a case. -/
def HasCase : Node → Prop
  | branch cases _ => cases ≠ []
  | _ => True

/-- The lists of statements right inside a node. -/
def blocks : Node → List (List Node)
  | loop _ _ body => [body]
  | branch cases otherwise => cases.map (·.2) ++ otherwise.toList
  | _ => []

/-- The lists of statements of a template: all of it, and every block of a node among them. -/
inductive Block (ns : List Node) : List Node → Prop
  | whole : Block ns ns
  | inner {ms body : List Node} {n : Node} (h : Block ns ms) (hn : n ∈ ms)
    (hbody : body ∈ n.blocks) : Block ns body

variable {p : Node → Prop}

theorem Every.blocks {n : Node} (h : n.Every p) : ∀ body ∈ n.blocks, ∀ m ∈ body, m.Every p := by
  cases h with
  | text h => exact fun _ hbody => absurd hbody List.not_mem_nil
  | print h => exact fun _ hbody => absurd hbody List.not_mem_nil
  | loop h hbody => exact List.forall_mem_singleton.2 hbody
  | branch h hcases hotherwise =>
    intro body hbody
    rcases List.mem_append.1 hbody with hbody | hbody
    · obtain ⟨c, hc, rfl⟩ := List.mem_map.1 hbody
      exact hcases c hc
    · exact hotherwise body (Option.mem_toList.1 hbody)
  | phrase h hbodies => exact fun _ hbody => absurd hbody List.not_mem_nil

theorem Block.every {ns ms : List Node} (h : Block ns ms) (hns : ∀ n ∈ ns, n.Every p) :
    ∀ n ∈ ms, n.Every p := by
  induction h with
  | whole => exact hns
  | inner _ hn hbody ih => exact (ih _ hn).blocks _ hbody

theorem mem_phrases_of_block {n : Node} {body : List Node} (hbody : body ∈ n.blocks)
    {q : Phrase Node} (hq : q ∈ phrasesOf body) : q ∈ n.phrases := by
  cases n with
  | loop target items inner =>
    obtain rfl := List.mem_singleton.1 hbody
    exact hq
  | branch cases otherwise =>
    rw [phrases]
    rcases List.mem_append.1 hbody with hbody | hbody
    · obtain ⟨c, hc, rfl⟩ := List.mem_map.1 hbody
      refine List.mem_append_left _ (forall_casePhrases_iff.1 (fun _ h => h) c hc q ?_)
      exact hq
    · obtain rfl := Option.mem_toList.1 hbody
      exact List.mem_append_right _ hq
  | _ => exact absurd hbody List.not_mem_nil

/-- A phrase among the statements of a block is one among those of the template. -/
theorem Block.mem_phrasesOf {ns ms : List Node} (h : Block ns ms) {q : Phrase Node}
    (hq : q ∈ phrasesOf ms) : q ∈ phrasesOf ns := by
  induction h with
  | whole => exact hq
  | inner _ hn hbody ih =>
    exact ih (forall_phrasesOf_iff.1 (fun _ h => h) _ hn _ (mem_phrases_of_block hbody hq))

end Node

namespace Script

/-- A text with no line break in it. -/
def Unbroken (text : String) : Prop := '\n' ∉ text.toList ∧ '\r' ∉ text.toList

instance (text : String) : Decidable (Unbroken text) :=
  inferInstanceAs (Decidable ('\n' ∉ text.toList ∧ '\r' ∉ text.toList))

theorem unbroken_of_forall {text : String} (h : ∀ c, Expr.IsBreak c → c ∉ text.toList) :
    Unbroken text :=
  ⟨h _ (.inl rfl), h _ (.inr rfl)⟩

theorem Unbroken.append {s t : String} (hs : Unbroken s) (ht : Unbroken t) : Unbroken (s ++ t) := by
  simp only [Unbroken, String.toList_append, List.mem_append, not_or]
  exact ⟨⟨hs.1, ht.1⟩, hs.2, ht.2⟩

/-- A line of a script: the number of blocks it stands in, and what follows its margin. -/
structure Row where
  depth : Nat
  text : String

namespace Row

/-- A row outside all blocks. -/
def flush (text : String) : Row := ⟨0, text⟩

def emit (text : String) : Row := flush ("emit(" ++ text ++ ");")

def close : Row := flush "\x7d"

/-- The row in one block more. -/
def inward (r : Row) : Row := { r with depth := r.depth + 1 }

/-- The line of a row in a script at some depth. -/
def line (base : Nat) (r : Row) : String :=
  String.ofList (List.replicate (4 * (base + r.depth)) ' ') ++ r.text ++ "\n"

/-- The row is one line, and its margin ends where its text begins. -/
structure IsClean (r : Row) : Prop where
  unbroken : Unbroken r.text
  begins : ∃ c ∈ r.text.toList.head?, c ≠ ' '

theorem IsClean.inward {r : Row} (h : r.IsClean) : r.inward.IsClean := ⟨h.unbroken, h.begins⟩

theorem IsClean.append {s t : String} (hs : (flush s).IsClean) (ht : Unbroken t) :
    (flush (s ++ t)).IsClean := by
  obtain ⟨c, hc, hspace⟩ := hs.begins
  refine ⟨hs.unbroken.append ht, c, ?_, hspace⟩
  rw [flush, Option.mem_def] at hc
  rw [flush, Option.mem_def, String.toList_append, List.head?_append, hc, Option.some_or]

theorem isClean_emit {text : String} (h : Unbroken text) : (emit text).IsClean :=
  IsClean.append (.append ⟨by decide, 'e', by decide⟩ h) (by decide)

theorem isClean_close : close.IsClean := ⟨by decide, '\x7d', by decide⟩

end Row

mutual

/-- The rows of a node, unless a phrase has no call. -/
def rows (env : Environment) : Node → Except Error (List Row)
  | .text content => .ok [.emit (Literal.spell content)]
  | .print e => .ok [.emit (e.script env.function)]
  | .loop target items body => do
    let inside ← rowsOf env body
    return .flush ("for " ++ target ++ " in " ++ items.script env.function ++ " \x7b") ::
      (inside.map Row.inward ++ [.close])
  | .branch cases otherwise => do
    let first ← rowsOfCases env "if " cases
    let last ← rowsOfFallback env otherwise
    return first ++ (last ++ [.close])
  | .phrase p => do
    let call ← p.call (.ofOptions env.options)
    return .flush ("// line " ++ Decimal.natText p.line) ::
      (p.notesText.toList.map (fun notes => .flush ("// Translation Notes: " ++ notes)) ++
        [.emit (call.script env.function)])

def rowsOf (env : Environment) : List Node → Except Error (List Row)
  | [] => .ok []
  | n :: rest => do
    let first ← rows env n
    let later ← rowsOf env rest
    return first ++ later

/-- The rows of cases, the first of which opens with a given text. -/
def rowsOfCases (env : Environment) (opening : String) :
    List (Expr × List Node) → Except Error (List Row)
  | [] => .ok []
  | (condition, body) :: rest => do
    let inside ← rowsOf env body
    let later ← rowsOfCases env "\x7d else if " rest
    return .flush (opening ++ condition.script env.function ++ " \x7b") ::
      (inside.map Row.inward ++ later)

def rowsOfFallback (env : Environment) : Option (List Node) → Except Error (List Row)
  | none => .ok []
  | some body => do
    let inside ← rowsOf env body
    return .flush "\x7d else \x7b" :: inside.map Row.inward

end

/-- The text of rows in a script at some depth. -/
def layout (base : Nat) (rs : List Row) : String := String.join (rs.map (Row.line base))

@[simp]
theorem layout_nil (base : Nat) : layout base [] = "" := rfl

@[simp]
theorem layout_cons (base : Nat) (r : Row) (rs : List Row) :
    layout base (r :: rs) = r.line base ++ layout base rs := by
  simp [layout, String.join_cons]

@[simp]
theorem layout_append (base : Nat) (rs rs' : List Row) :
    layout base (rs ++ rs') = layout base rs ++ layout base rs' := by
  induction rs with
  | nil => simp
  | cons r rs ih => simp [ih, String.append_assoc]

@[simp]
theorem layout_inward (base : Nat) (rs : List Row) :
    layout base (rs.map Row.inward) = layout (base + 1) rs := by
  induction rs with
  | nil => rfl
  | cons r rs ih =>
    rw [List.map_cons, layout_cons, layout_cons, ih]
    simp [Row.line, Row.inward, Nat.add_comm, Nat.add_left_comm]

theorem write_row (text written : String) (depth : Nat) :
    Script.write (text ++ "\n") ⟨written, depth⟩ =
      ⟨written ++ (Row.flush text).line depth, depth⟩ := by
  simp [write, raw, margin_eq, Row.line, Row.flush, String.append_assoc]

/-- A run that appends rows in a script at depth `base` to what was written, and ends at depth
`after`; without rows, it fails with the same error. -/
def Writes (rs : Except Error (List Row)) (base after : Nat) (written : String)
    (r : Except Error Unit × Script) : Prop :=
  match rs with
  | .ok rs => r = (.ok (), ⟨written ++ layout base rs, after⟩)
  | .error e => r.1 = .error e

namespace Writes

variable {rs : Except Error (List Row)} {b base mid after : Nat} {v w : String}
  {r : Except Error Unit × Script}

/-- What is written later depends only on the depth at which the first part ends. -/
theorem bind {f : List Row → Except Error (List Row)}
    {next : Script → Except Error Unit × Script} (h : Writes rs b mid v r)
    (hnext : ∀ first, Writes (f first) base after w (next ⟨v ++ layout b first, mid⟩)) :
    Writes (rs >>= f) base after w (andThen r next) := by
  cases rs with
  | error e =>
    have hr : r.1 = .error e := h
    change (andThen r next).1 = .error e
    rw [result_andThen, hr]
    rfl
  | ok first =>
    have hr : r = (.ok (), ⟨v ++ layout b first, mid⟩) := h
    rw [hr]
    exact hnext first

/-- Rows may be put around those that are written, if the text is the same. -/
theorem framed {f : List Row → List Row} (h : Writes rs b after v r)
    (hf : ∀ inside, v ++ layout b inside = w ++ layout base (f inside)) :
    Writes (rs >>= fun inside => .ok (f inside)) base after w r := by
  cases rs with
  | error e => exact h
  | ok inside =>
    have hr : r = (.ok (), ⟨v ++ layout b inside, after⟩) := h
    rw [hf] at hr
    exact hr

end Writes

variable {env : Environment}

/-- Wherever it begins, writing the node appends its rows at that depth and ends there. -/
def WritesRows (env : Environment) (n : Node) : Prop :=
  ∀ depth written, Writes (rows env n) depth depth written (node env n ⟨written, depth⟩)

theorem writes_nodes_of_forall {ns : List Node} (h : ∀ n ∈ ns, WritesRows env n) (depth : Nat)
    (written : String) :
    Writes (rowsOf env ns) depth depth written (nodes env ns ⟨written, depth⟩) := by
  induction ns generalizing written with
  | nil =>
    change _ = _
    simp [nodes]
  | cons n ns ih =>
    obtain ⟨hn, hns⟩ := List.forall_mem_cons.1 h
    refine (hn depth written).bind fun first => (ih hns _).framed fun later => ?_
    rw [layout_append, String.append_assoc]

/-- A case begins at the depth of the branch if it is the first one, else in the block of the case
before it. It ends in its own block. -/
theorem writes_case {condition : Expr} {body : List Node} {rest : List (Expr × List Node)}
    {depth : Nat} (hbody : ∀ n ∈ body, WritesRows env n)
    (hrest : ∀ written, Writes (rowsOfCases env "\x7d else if " rest) depth (depth + 1) written
      (branches env false rest ⟨written, depth + 1⟩)) (isFirst : Bool) (written : String) :
    Writes
      (rowsOfCases env (if isFirst then "if " else "\x7d else if ") ((condition, body) :: rest))
      depth (depth + 1) written
      (branches env isFirst ((condition, body) :: rest)
        ⟨written, if isFirst then depth else depth + 1⟩) := by
  have hopen : (if isFirst then write "if " ⟨written, if isFirst then depth else depth + 1⟩
      else (outdent ⟨written, if isFirst then depth else depth + 1⟩).write "\x7d else if ").raw
        (condition.script env.function ++ " \x7b\n") =
      ⟨written ++ (Row.flush ((if isFirst then "if " else "\x7d else if ") ++
        condition.script env.function ++ " \x7b")).line depth, depth⟩ := by
    rw [← write_row]
    cases isFirst <;> simp [write, raw, outdent, String.append_assoc]
  rw [branches, hopen]
  refine (writes_nodes_of_forall hbody (depth + 1) _).bind fun inside => ?_
  refine (hrest _).framed fun later => ?_
  simp [String.append_assoc]

theorem writes_furtherCases {cases : List (Expr × List Node)}
    (h : ∀ c ∈ cases, ∀ n ∈ c.2, WritesRows env n) (depth : Nat) (written : String) :
    Writes (rowsOfCases env "\x7d else if " cases) depth (depth + 1) written
      (branches env false cases ⟨written, depth + 1⟩) := by
  induction cases generalizing written with
  | nil =>
    change _ = _
    simp [branches]
  | cons c cases ih =>
    obtain ⟨hbody, hcases⟩ := List.forall_mem_cons.1 h
    exact writes_case hbody (ih hcases) false written

theorem writes_fallback {otherwise : Option (List Node)}
    (h : ∀ body ∈ otherwise, ∀ n ∈ body, WritesRows env n) (depth : Nat) (written : String) :
    Writes (rowsOfFallback env otherwise) depth (depth + 1) written
      (fallback env otherwise ⟨written, depth + 1⟩) := by
  cases otherwise with
  | none =>
    change _ = _
    simp [fallback]
  | some body =>
    have hopen : (outdent ⟨written, depth + 1⟩).write "\x7d else \x7b\n" =
        ⟨written ++ (Row.flush "\x7d else \x7b").line depth, depth⟩ :=
      write_row "\x7d else \x7b" written depth
    rw [fallback, hopen]
    refine (writes_nodes_of_forall (h body rfl) (depth + 1) _).framed fun inside => ?_
    simp [String.append_assoc]

theorem write_close (written : String) (depth : Nat) :
    (outdent ⟨written, depth + 1⟩).write "\x7d\n" = ⟨written ++ Row.close.line depth, depth⟩ :=
  write_row "\x7d" written depth

theorem emit_row (text written : String) (depth : Nat) :
    Script.emit text ⟨written, depth⟩ = ⟨written ++ (Row.emit text).line depth, depth⟩ := by
  rw [Row.emit, ← write_row, emit]
  simp [String.append_assoc]

theorem writes_phrase (p : Phrase Node) : WritesRows env (.phrase p) := by
  intro depth written
  rw [rows, node, phrase]
  cases hcall : p.call (.ofOptions env.options) with
  | error e => rfl
  | ok call =>
    have hline : lineComment p.line ⟨written, depth⟩ =
        ⟨written ++ (Row.flush ("// line " ++ Decimal.natText p.line)).line depth, depth⟩ :=
      write_row _ _ _
    have hnotes : ∀ notes written,
        write ("// Translation Notes: " ++ notes ++ "\n") ⟨written, depth⟩ =
          ⟨written ++ (Row.flush ("// Translation Notes: " ++ notes)).line depth, depth⟩ :=
      fun _ _ => write_row _ _ _
    change _ = _
    dsimp only
    rw [hline]
    cases p.notesText with
    | none => simp [emit_row, String.append_assoc]
    | some notes =>
      dsimp only
      rw [hnotes, emit_row]
      simp [String.append_assoc]

/-- One case for each form of node: what is written are its rows. -/
theorem writesRows_of_hasCase {n : Node} (h : n.Every Node.HasCase) : WritesRows env n := by
  induction n using Node.induction with
  | text content =>
    intro depth written
    change _ = _
    rw [node, emit_row, layout_cons, layout_nil, String.append_empty]
  | print e =>
    intro depth written
    change _ = _
    rw [node, emit_row, layout_cons, layout_nil, String.append_empty]
  | loop target items body ih =>
    intro depth written
    obtain ⟨_, hbody⟩ := Node.every_loop.1 h
    have hopen : write ("for " ++ target ++ " in " ++ items.script env.function ++ " \x7b\n")
        ⟨written, depth⟩ = ⟨written ++ (Row.flush ("for " ++ target ++ " in " ++
          items.script env.function ++ " \x7b")).line depth, depth⟩ := by
      rw [← write_row]
      simp [String.append_assoc]
    rw [rows, node, hopen]
    refine (writes_nodes_of_forall (fun n hn => ih n hn (hbody n hn)) (depth + 1) _).bind
      fun inside => ?_
    change _ = _
    simp [write_close, String.append_assoc]
  | branch cases otherwise ihcases ihotherwise =>
    intro depth written
    obtain ⟨hne, hcases, hotherwise⟩ := Node.every_branch.1 h
    obtain ⟨c, rest, rfl⟩ := List.exists_cons_of_ne_nil hne
    obtain ⟨hbody, hrest⟩ := List.forall_mem_cons.1 fun c hc n hn =>
      ihcases c hc n hn (hcases c hc n hn)
    rw [rows, node]
    refine (writes_case hbody (writes_furtherCases hrest depth) true written).bind fun first => ?_
    refine (writes_fallback (fun body hb n hn => ihotherwise body hb n hn (hotherwise body hb n hn))
      depth _).bind fun last => ?_
    change _ = _
    simp [write_close, String.append_assoc]
  | phrase p _ => exact writes_phrase p

/-- Statements have rows if all phrases among them have calls, and then writing them succeeds at any
depth and ends there. -/
theorem nodes_of_callAll {ns : List Node} (hcase : ∀ n ∈ ns, n.Every Node.HasCase)
    (hcalls : ∀ p ∈ Node.phrasesOf ns, ∃ e, p.call (.ofOptions env.options) = .ok e) (s : Script) :
    ∃ rs, rowsOf env ns = .ok rs ∧
      nodes env ns s = (.ok (), ⟨s.written ++ layout s.depth rs, s.depth⟩) := by
  have hwrites : Writes (rowsOf env ns) s.depth s.depth s.written (nodes env ns s) :=
    writes_nodes_of_forall (fun n hn => writesRows_of_hasCase (hcase n hn)) s.depth s.written
  cases hrows : rowsOf env ns with
  | ok rs =>
    rw [hrows] at hwrites
    exact ⟨rs, rfl, hwrites⟩
  | error e =>
    rw [hrows] at hwrites
    have hresult := result_nodes env ns s
    rw [Phrase.callAll_eq_ok.2 hcalls] at hresult
    exact absurd (hresult.symm.trans hwrites) (by simp)

/-- The rows of a node are clean, if it has rows. -/
def HasCleanRows (env : Environment) (n : Node) : Prop :=
  ∀ rs, rows env n = .ok rs → ∀ r ∈ rs, r.IsClean

theorem isClean_inward {rs : List Row} (h : ∀ r ∈ rs, r.IsClean) :
    ∀ r ∈ rs.map Row.inward, r.IsClean := by
  intro r hr
  obtain ⟨r', hr', rfl⟩ := List.mem_map.1 hr
  exact (h r' hr').inward

theorem isClean_rowsOf {ns : List Node} (h : ∀ n ∈ ns, HasCleanRows env n) {rs : List Row}
    (hrs : rowsOf env ns = .ok rs) : ∀ r ∈ rs, r.IsClean := by
  induction ns generalizing rs with
  | nil =>
    cases hrs
    exact fun _ hr => absurd hr List.not_mem_nil
  | cons n ns ih =>
    obtain ⟨hn, hns⟩ := List.forall_mem_cons.1 h
    obtain ⟨first, hfirst, hrs⟩ := exists_of_bind_eq_ok hrs
    obtain ⟨later, hlater, hrs⟩ := exists_of_bind_eq_ok hrs
    cases hrs
    exact List.forall_mem_append.2 ⟨hn first hfirst, ih hns hlater⟩

theorem unbroken_script {function : String → String} {e : Expr}
    (h : e.Every (Expr.IsNamed function)) : Unbroken (e.script function) :=
  unbroken_of_forall fun _ hc => Expr.not_mem_script_of_isBreak hc h

theorem isClean_rowsOfCases {cases : List (Expr × List Node)}
    (hconditions : ∀ c ∈ cases, c.1.Every (Expr.IsNamed env.function))
    (h : ∀ c ∈ cases, ∀ n ∈ c.2, HasCleanRows env n) {opening : String}
    (hopening : (Row.flush opening).IsClean) {rs : List Row}
    (hrs : rowsOfCases env opening cases = .ok rs) : ∀ r ∈ rs, r.IsClean := by
  induction cases generalizing opening rs with
  | nil =>
    cases hrs
    exact fun _ hr => absurd hr List.not_mem_nil
  | cons c cases ih =>
    obtain ⟨hcondition, hconditions⟩ := List.forall_mem_cons.1 hconditions
    obtain ⟨hbody, hcases⟩ := List.forall_mem_cons.1 h
    obtain ⟨inside, hinside, hrs⟩ := exists_of_bind_eq_ok hrs
    obtain ⟨later, hlater, hrs⟩ := exists_of_bind_eq_ok hrs
    cases hrs
    refine List.forall_mem_cons.2 ⟨?_, List.forall_mem_append.2 ⟨?_, ?_⟩⟩
    · exact (hopening.append (unbroken_script hcondition)).append (by decide)
    · exact isClean_inward (isClean_rowsOf hbody hinside)
    · exact ih hconditions hcases ⟨by decide, '\x7d', by decide⟩ hlater

theorem isClean_rowsOfFallback {otherwise : Option (List Node)}
    (h : ∀ body ∈ otherwise, ∀ n ∈ body, HasCleanRows env n) {rs : List Row}
    (hrs : rowsOfFallback env otherwise = .ok rs) : ∀ r ∈ rs, r.IsClean := by
  cases otherwise with
  | none =>
    cases hrs
    exact fun _ hr => absurd hr List.not_mem_nil
  | some body =>
    obtain ⟨inside, hinside, hrs⟩ := exists_of_bind_eq_ok hrs
    cases hrs
    refine List.forall_mem_cons.2 ⟨⟨by decide, '\x7d', by decide⟩, ?_⟩
    exact isClean_inward (isClean_rowsOf (h body rfl) hinside)

theorem isClean_phrase {p : Phrase Node} {call : Expr}
    (hcall : call.Every (Expr.IsNamed env.function)) {rs : List Row}
    (h : p.call (.ofOptions env.options) = .ok call) (hrs : rows env (.phrase p) = .ok rs) :
    ∀ r ∈ rs, r.IsClean := by
  rw [rows, h] at hrs
  cases hrs
  have hline : Unbroken (Decimal.natText p.line) := unbroken_of_forall fun _ hc => by
    rw [Decimal.natText, String.toList_ofList]
    exact Expr.not_mem_digits_of_isBreak hc _
  refine List.forall_mem_cons.2 ⟨?_, List.forall_mem_append.2 ⟨fun r hr => ?_, ?_⟩⟩
  · exact Row.IsClean.append ⟨by decide, '/', by decide⟩ hline
  · obtain ⟨notes, hnotes, rfl⟩ := List.mem_map.1 hr
    refine Row.IsClean.append ⟨by decide, '/', by decide⟩ (unbroken_of_forall fun _ hc => ?_)
    exact not_mem_notesText_of_isBreak hc (Option.mem_toList.1 hnotes)
  · exact List.forall_mem_singleton.2 (Row.isClean_emit (unbroken_script hcall))

/-- All names in a node are identifiers. -/
structure NamesIdentifiers (env : Environment) (n : Node) : Prop where
  target : ∀ target items body, n = .loop target items body → Scanner.isIdentifier target = true
  exprs : ∀ e ∈ n.exprs, e.Every (Expr.IsNamed env.function)

/-- One case for each form of node: whatever texts it holds, its rows are clean. -/
theorem hasCleanRows_of_namesIdentifiers
    (hframes : Phrase.Frames env.options (Expr.IsNamed env.function)) {n : Node}
    (h : n.Every (NamesIdentifiers env)) : HasCleanRows env n := by
  induction n using Node.induction with
  | text content =>
    intro rs hrs
    cases hrs
    refine List.forall_mem_singleton.2 (Row.isClean_emit (unbroken_of_forall fun _ hc => ?_))
    exact Expr.not_mem_spell_of_isBreak hc content
  | print e =>
    intro rs hrs
    cases hrs
    have he := h.self.exprs e List.mem_cons_self
    exact List.forall_mem_singleton.2 (Row.isClean_emit (unbroken_script he))
  | loop target items body ih =>
    intro rs hrs
    obtain ⟨hself, hbody⟩ := Node.every_loop.1 h
    have htarget : Unbroken target := unbroken_of_forall fun _ hc =>
      Expr.not_mem_of_isBreak hc (hself.target _ _ _ rfl)
    have hitems := unbroken_script (hself.exprs items List.mem_cons_self)
    have hfor : (Row.flush "for ").IsClean := ⟨by decide, 'f', by decide⟩
    obtain ⟨inside, hinside, hrs⟩ := exists_of_bind_eq_ok hrs
    cases hrs
    refine List.forall_mem_cons.2 ⟨?_, List.forall_mem_append.2 ⟨?_, ?_⟩⟩
    · exact (((hfor.append htarget).append (by decide)).append hitems).append (by decide)
    · exact isClean_inward (isClean_rowsOf (fun n hn => ih n hn (hbody n hn)) hinside)
    · exact List.forall_mem_singleton.2 Row.isClean_close
  | branch cases otherwise ihcases ihotherwise =>
    intro rs hrs
    obtain ⟨hself, hcases, hotherwise⟩ := Node.every_branch.1 h
    obtain ⟨first, hfirst, hrs⟩ := exists_of_bind_eq_ok hrs
    obtain ⟨last, hlast, hrs⟩ := exists_of_bind_eq_ok hrs
    cases hrs
    refine List.forall_mem_append.2 ⟨?_, List.forall_mem_append.2 ⟨?_, ?_⟩⟩
    · refine isClean_rowsOfCases (fun c hc => ?_) (fun c hc n hn => ?_) ⟨by decide, 'i', by decide⟩
        hfirst
      · exact hself.exprs c.1 (List.mem_map.2 ⟨c, hc, rfl⟩)
      · exact ihcases c hc n hn (hcases c hc n hn)
    · refine isClean_rowsOfFallback (fun body hbody n hn => ?_) hlast
      exact ihotherwise body hbody n hn (hotherwise body hbody n hn)
    · exact List.forall_mem_singleton.2 Row.isClean_close
  | phrase p _ =>
    intro rs hrs
    obtain ⟨call, hcall, _⟩ := exists_of_bind_eq_ok hrs
    exact isClean_phrase (Phrase.every_call hframes hcall (h.mono fun _ hn => hn.exprs)) hcall hrs

end Script

/-- The functions that a project chooses have names. -/
structure Options.NamesIdentifiers (options : Options) : Prop where
  translate : Scanner.isIdentifier options.translateFunction = true
  translatePlural : Scanner.isIdentifier options.translatePluralFunction = true
  escape : Scanner.isIdentifier options.escapeFunction = true

namespace Environment

variable {options : Options}

theorem isIdentifier_function (hnames : options.NamesIdentifiers) {n : String}
    (hn : Scanner.isIdentifier n = true) :
    Scanner.isIdentifier ((standard options).function n) = true := by
  rw [function_standard]
  split
  · exact hnames.translate
  · exact hn

theorem isNamed_of_isRead (hnames : options.NamesIdentifiers) {checks : Bool} {e : Expr}
    (h : e.Every (Expr.IsRead checks)) : e.Every (Expr.IsNamed (standard options).function) := by
  refine h.mono fun e he => ?_
  cases e with
  | name n => exact he.1
  | member e key => exact he
  | filter e n args => exact isIdentifier_function hnames he
  | call n args => exact he.1
  | _ => trivial

theorem frames_isNamed (hnames : options.NamesIdentifiers) :
    Phrase.Frames options (Expr.IsNamed (standard options).function) where
  text _ := trivial
  list _ := trivial
  map _ := trivial
  filling n hn _ := by
    simp only [List.mem_cons, List.not_mem_nil, or_false] at hn
    rcases hn with rfl | rfl
    · exact hnames.escape
    · exact (by decide : Scanner.isIdentifier "abs" = true)
  translating n hn _ := by
    simp only [List.mem_cons, List.not_mem_nil, or_false] at hn
    rcases hn with rfl | rfl
    · exact hnames.translate
    · exact hnames.translatePlural

theorem namesIdentifiers_of_isRead (hnames : options.NamesIdentifiers) {n : Node}
    (h : n.IsRead (standard options)) : Script.NamesIdentifiers (standard options) n where
  target target items body hn := by
    subst hn
    exact h.1
  exprs := by
    intro e he
    rcases h.exprs e he with hread | ⟨e', hread, rfl⟩
    · exact isNamed_of_isRead hnames hread
    · refine every_printed (isNamed_of_isRead hnames hread) (fun _ => ?_) fun _ _ => trivial
      exact isIdentifier_function hnames hnames.escape

theorem hasCase_of_isRead {env : Environment} {n : Node} (h : n.IsRead env) : n.HasCase := by
  cases n with
  | branch cases otherwise => exact h.1
  | _ => trivial

/-- A script that was compiled is laid out in rows, each of which is one line. Writing any block of
the template gives the rows of the block at the depth at which it begins, and ends there. -/
theorem layout_of_compile (hnames : options.NamesIdentifiers) {source code : String}
    (h : (standard options).compile source = .ok code) :
    ∃ ns rs, (standard options).parse source = .ok ns ∧ (∀ n ∈ ns, n.Every Node.HasCase) ∧
      Script.rowsOf (standard options) ns = .ok rs ∧ (∀ r ∈ rs, r.IsClean) ∧
      code = Script.layout 0 rs ∧
      ∀ ms, Node.Block ns ms → ∀ s : Script, ∃ inside,
        Script.rowsOf (standard options) ms = .ok inside ∧
        Script.nodes (standard options) ms s =
          (.ok (), ⟨s.written ++ Script.layout s.depth inside, s.depth⟩) := by
  obtain ⟨ns, hparse, hcompile⟩ := exists_of_compile_eq_ok h
  have hread := isRead_of_parse hparse
  have hcase : ∀ n ∈ ns, n.Every Node.HasCase := fun n hn =>
    (hread n hn).mono fun _ => hasCase_of_isRead
  have hcalls := exists_compileNodes_eq_ok.1 ⟨code, hcompile⟩
  have hframes : Phrase.Frames (standard options).options
      (Expr.IsNamed (standard options).function) := frames_isNamed hnames
  have hclean : ∀ n ∈ ns, Script.HasCleanRows (standard options) n := fun n hn =>
    Script.hasCleanRows_of_namesIdentifiers hframes
      ((hread n hn).mono fun _ => namesIdentifiers_of_isRead hnames)
  obtain ⟨rs, hrows, hwritten⟩ := Script.nodes_of_callAll hcase hcalls {}
  refine ⟨ns, rs, hparse, hcase, hrows, Script.isClean_rowsOf hclean hrows, ?_, ?_⟩
  · rw [compileNodes, hwritten] at hcompile
    simpa using (Except.ok.inj hcompile).symm
  · intro ms hms s
    exact Script.nodes_of_callAll (hms.every hcase) (fun p hp => hcalls p (hms.mem_phrasesOf hp)) s

/-- Line breaks in a string, in notes and in a text with a quote and a backslash, and a function
with a reserved name. -/
theorem layout_of_compile_unbroken :
    ∃ ns rs, (standard { translateFunction := "not" }).compile
        ("\x7b% if x == \"\\n\" %\x7d\"\\\r\n\x7b% trans from d %\x7d!" ++
          "\x7b% notes %\x7da\r\nb\x7b% endtrans %\x7d\x7b% endif %\x7d") =
        .ok (Script.layout 0 rs) ∧
      Script.rowsOf (standard { translateFunction := "not" }) ns = .ok rs ∧
      (∀ r ∈ rs, r.IsClean) ∧
      Script.layout 0 rs = "if (x == \"\\n\") \x7b\n    emit(\"\\\"\\\\\\r\\n\");\n" ++
        "    // line 2\n    // Translation Notes: a  b\n    emit(not(\"!\", d));\n\x7d\n" ∧
      ∀ s : Script,
        (Script.nodes (standard { translateFunction := "not" }) ns s).2.depth = s.depth := by
  have hnames : Options.NamesIdentifiers { translateFunction := "not" } :=
    ⟨by decide, by decide, by decide⟩
  have hparse : (standard { translateFunction := "not" }).parse
      ("\x7b% if x == \"\\n\" %\x7d\"\\\r\n\x7b% trans from d %\x7d!" ++
        "\x7b% notes %\x7da\r\nb\x7b% endtrans %\x7d\x7b% endif %\x7d") =
      .ok [.branch [(.binary (.name "x") .equal (.text "\n"), [.text "\"\\\r\n",
        .phrase ⟨.block [.text "!"], .name "d", none, some [.text "a\r\nb"], 2⟩])] none] := by
    decide +kernel
  have hcompile : (standard { translateFunction := "not" }).compile
      ("\x7b% if x == \"\\n\" %\x7d\"\\\r\n\x7b% trans from d %\x7d!" ++
        "\x7b% notes %\x7da\r\nb\x7b% endtrans %\x7d\x7b% endif %\x7d") =
      .ok ("if (x == \"\\n\") \x7b\n    emit(\"\\\"\\\\\\r\\n\");\n" ++
        "    // line 2\n    // Translation Notes: a  b\n    emit(not(\"!\", d));\n\x7d\n") := by
    rw [compile_of_parse hparse]
    decide +kernel
  obtain ⟨ns, rs, _, _, hrows, hclean, hlayout, hblocks⟩ := layout_of_compile hnames hcompile
  refine ⟨ns, rs, ?_, hrows, hclean, hlayout.symm, fun s => ?_⟩
  · rw [← hlayout]
    exact hcompile
  obtain ⟨inside, _, hwritten⟩ := hblocks ns .whole s
  rw [hwritten]

end Environment

end Polyglot
