import Polyglot.Proofs.LoweredRendering
import Polyglot.Proofs.ScriptLines

/-!
The layout of a script. The script of a list of nodes is laid out in the lines of the lowered nodes:
a line for each print, and lines around the bodies of loops and branches. The margins show how deep
a line stands, but the lines are the same without them.
-/
namespace Polyglot.Script

open Polyglot

variable {function : String → String}

/-- A text is laid out in lines, with margins in front and comments in between. -/
inductive Lays (function : String → String) : List Char → List Line → Prop
  | nil : Lays function [] []
  | comment {cs w : List Char} {ls : List Line} (k : Nat) (hcs : '\n' ∉ cs)
      (h : Lays function w ls) : Lays function (List.replicate k ' ' ++ '/' :: cs ++ '\n' :: w) ls
  | line {w : List Char} {ls : List Line} (k : Nat) (l : Line) (h : Lays function w ls) :
      Lays function (List.replicate k ' ' ++ (l.spelled function).toList ++ '\n' :: w) (l :: ls)

theorem Lays.append {v w : List Char} {ls ms : List Line} (h : Lays function v ls)
    (h' : Lays function w ms) : Lays function (v ++ w) (ls ++ ms) := by
  induction h with
  | nil => exact h'
  | comment k hcs _ ih => simpa using Lays.comment k hcs ih
  | line k l _ ih => simpa using Lays.line k l ih

theorem dropWhile_margin (k : Nat) {c : Char} (hc : c ≠ ' ') (cs : List Char) :
    (List.replicate k ' ' ++ c :: cs).dropWhile (· == ' ') = c :: cs := by
  induction k with
  | zero => simp [hc]
  | succ k ih => simpa [List.replicate_succ] using ih

/-- A row of a text is its part up to the line break without the margin. -/
theorem row_inj {k k' : Nat} {c c' : Char} {cs cs' w w' : List Char} (hc : c ≠ ' ')
    (hc' : c' ≠ ' ') (hcs : '\n' ∉ c :: cs) (hcs' : '\n' ∉ c' :: cs')
    (h : List.replicate k ' ' ++ c :: cs ++ '\n' :: w =
      List.replicate k' ' ' ++ c' :: cs' ++ '\n' :: w') : c :: cs = c' :: cs' ∧ w = w' := by
  have hmargin : ∀ k, '\n' ∉ List.replicate k ' ' := fun k hmem =>
    absurd (List.eq_of_mem_replicate hmem) (by decide)
  obtain ⟨hrow, hw⟩ := append_cons_inj (by simp only [List.mem_append, hmargin, hcs, or_self,
    not_false_eq_true]) (by simp only [List.mem_append, hmargin, hcs', or_self,
    not_false_eq_true]) h
  have hdrop := congrArg (List.dropWhile (· == ' ')) hrow
  rw [dropWhile_margin k hc, dropWhile_margin k' hc'] at hdrop
  exact ⟨hdrop, hw⟩

/-- No line begins like a margin or a comment. -/
theorem Line.spelled_eq_cons (function : String → String) (l : Line) :
    ∃ c cs, (l.spelled function).toList = c :: cs ∧ c ≠ ' ' ∧ c ≠ '/' := by
  cases l <;> exact ⟨_, _, by simp [spelled]; exact ⟨rfl, rfl⟩, by decide, by decide⟩

theorem Lays.unique {w : List Char} {ls ms : List Line} (h : Lays function w ls)
    (h' : Lays function w ms) (hls : ∀ l ∈ ls, l.IsClean function)
    (hms : ∀ m ∈ ms, m.IsClean function) : ls = ms := by
  induction h generalizing ms with
  | nil =>
    generalize hw : [] = w at h'
    cases h' with
    | nil => rfl
    | comment k hcs h' => simp at hw
    | line k l h' => simp at hw
  | @comment cs w ls k hcs h ih =>
    generalize hv : List.replicate k ' ' ++ '/' :: cs ++ '\n' :: w = v at h'
    cases h' with
    | nil => simp at hv
    | comment k' hcs' h' =>
      obtain ⟨_, rfl⟩ := row_inj (by decide) (by decide) (by simpa using hcs)
        (by simpa using hcs') hv
      exact ih h' hls hms
    | line k' l h' =>
      obtain ⟨c, ds, hl, hspace, hslash⟩ := Line.spelled_eq_cons function l
      have hclean := Line.lineFeed_not_mem_spelled (hms l List.mem_cons_self)
      rw [hl] at hv hclean
      obtain ⟨hrow, _⟩ := row_inj (by decide) hspace (by simpa using hcs) hclean hv
      exact absurd (List.cons.inj hrow).1.symm hslash
  | @line w ls k l h ih =>
    obtain ⟨hclean, hls⟩ := List.forall_mem_cons.1 hls
    have hfeed := Line.lineFeed_not_mem_spelled hclean
    obtain ⟨c, cs, hl, hspace, hslash⟩ := Line.spelled_eq_cons function l
    generalize hv : List.replicate k ' ' ++ (l.spelled function).toList ++ '\n' :: w = v at h'
    rw [hl] at hv hfeed
    cases h' with
    | nil => simp at hv
    | comment k' hcs' h' =>
      obtain ⟨hrow, _⟩ := row_inj hspace (by decide) hfeed (by simpa using hcs') hv
      exact absurd (List.cons.inj hrow).1 hslash
    | line k' m h' =>
      obtain ⟨hclean', hms⟩ := List.forall_mem_cons.1 hms
      have hfeed' := Line.lineFeed_not_mem_spelled hclean'
      obtain ⟨c', cs', hm, hspace', _⟩ := Line.spelled_eq_cons function m
      rw [hm] at hv hfeed'
      obtain ⟨hrow, rfl⟩ := row_inj hspace hspace' hfeed hfeed' hv
      have hspelled : l.spelled function = m.spelled function :=
        String.toList_inj.1 (by rw [hl, hm, hrow])
      rw [Line.spelled_inj hclean hclean' hspelled, ih h' hls hms]

mutual

/-- The lines of a node without texts and phrases. -/
def lines : Node → List Line
  | .text _ => []
  | .print e => [.emit e]
  | .loop target items body => .loop target items :: (linesOf body ++ [.close])
  | .branch cases otherwise =>
    linesOfCases true cases ++ (linesOfFallback otherwise ++ [.close])
  | .phrase _ => []

def linesOf : List Node → List Line
  | [] => []
  | n :: rest => lines n ++ linesOf rest

def linesOfCases (isFirst : Bool) : List (Expr × List Node) → List Line
  | [] => []
  | (condition, body) :: rest =>
    (if isFirst then .test condition else .next condition) ::
      (linesOf body ++ linesOfCases false rest)

def linesOfFallback : Option (List Node) → List Line
  | none => []
  | some body => .fallback :: linesOf body

end

/-- A script goes on to another one by some lines. -/
def Appends (function : String → String) (s t : Script) (ls : List Line) : Prop :=
  ∃ w, t.written.toList = s.written.toList ++ w ∧ Lays function w ls

theorem Appends.refl (s : Script) : Appends function s s [] := ⟨[], by simp, .nil⟩

theorem Appends.trans {s t u : Script} {ls ms : List Line} (h : Appends function s t ls)
    (h' : Appends function t u ms) : Appends function s u (ls ++ ms) := by
  obtain ⟨v, hv, hls⟩ := h
  obtain ⟨w, hw, hms⟩ := h'
  exact ⟨v ++ w, by rw [hw, hv, List.append_assoc], hls.append hms⟩

theorem margin_eq (depth : Nat) :
    margin depth = String.ofList (List.replicate (4 * depth) ' ') := by
  induction depth with
  | zero => rfl
  | succ depth ih =>
    have hmargin : margin (depth + 1) = "    " ++ margin depth := by
      simp [margin, List.replicate_succ, String.join_cons]
    have hblanks : List.replicate (4 * (depth + 1)) ' ' =
        [' ', ' ', ' ', ' '] ++ List.replicate (4 * depth) ' ' := by
      rw [Nat.mul_succ, Nat.add_comm, ← List.replicate_append_replicate]
      rfl
    rw [hmargin, ih, hblanks, String.ofList_append]

theorem toList_margin (depth : Nat) : ∃ k, (margin depth).toList = List.replicate k ' ' :=
  ⟨4 * depth, by rw [margin_eq, String.toList_ofList]⟩

/-- A line with some margin and a line break. -/
theorem appends_line {s t : Script} (depth : Nat) (l : Line)
    (h : t.written = s.written ++ (margin depth ++ (l.spelled function ++ "\n"))) :
    Appends function s t [l] := by
  obtain ⟨k, hk⟩ := toList_margin depth
  refine ⟨_, by rw [h, String.toList_append], ?_⟩
  simpa [hk] using Lays.line k l .nil

theorem appends_comment {s : Script} {text : String} (cs : List Char) (hcs : '\n' ∉ cs)
    (htext : text.toList = '/' :: cs ++ ['\n']) : Appends function s (s.write text) [] := by
  obtain ⟨k, hk⟩ := toList_margin s.depth
  refine ⟨_, by rw [write, raw, String.toList_append], ?_⟩
  have hlays : Lays function _ [] := Lays.comment k hcs .nil
  simpa [hk, htext] using hlays

theorem appends_emit {s : Script} (e : Expr) :
    Appends function s (s.emit (e.script function)) [.emit (e.lowered function)] := by
  refine appends_line s.depth _ ?_
  simp [emit, write, raw, Line.spelled, Expr.script_lowered, String.append_assoc]

theorem ok_of_andThen {r : Except Error Unit × Script}
    {next : Script → Except Error Unit × Script} {t : Script}
    (h : andThen r next = (.ok (), t)) : ∃ s, r = (.ok (), s) ∧ next s = (.ok (), t) := by
  unfold andThen at h
  split at h
  · exact ⟨_, rfl, h⟩
  · cases h

theorem not_mem_notesText_of_isBreak {c : Char} (hc : Expr.IsBreak c) {p : Phrase Node}
    {notes : String} (h : p.notesText = some notes) : c ∉ notes.toList := by
  obtain ⟨nodes, _, rfl⟩ := Option.map_eq_some_iff.1 h
  intro hmem
  simp only [Phrase.onOneLine, String.toList_ofList, List.mem_map] at hmem
  obtain ⟨d, _, rfl⟩ := hmem
  split at hc
  · exact absurd hc (by simp [Expr.IsBreak])
  · next hbreak => exact hbreak hc.symm

variable {env : Environment}

/-- The comments above a phrase are no lines of their own. -/
theorem appends_phrase {p : Phrase Node} {s t : Script} (h : phrase env p s = (.ok (), t)) :
    Appends env.function s t (lines ((Node.phrase p).lowered env)) := by
  unfold phrase at h
  split at h
  · cases h
  · next call hcall =>
    cases h
    rw [Node.lowered, hcall]
    have hline : Appends env.function s (s.lineComment p.line) [] := by
      have hdigits : '\n' ∉ Decimal.digits p.line := fun h =>
        absurd (Decimal.isDigit_of_mem_digits h) (by decide)
      refine appends_comment ("/ line ".toList ++ Decimal.digits p.line) ?_ ?_
      · simp [hdigits]
      · simp [Decimal.natText]
    refine hline.trans ?_
    split
    · next notes hnotes =>
      refine Appends.trans (?_ : Appends env.function _ _ []) (appends_emit call)
      refine appends_comment ("/ Translation Notes: ".toList ++ notes.toList) ?_ (by simp)
      simpa using not_mem_notesText_of_isBreak (.inl rfl) hnotes
    · exact appends_emit call

theorem appends_nodes {ns : List Node}
    (h : ∀ n ∈ ns, ∀ s t, node env n s = (.ok (), t) →
      Appends env.function s t (lines (n.lowered env))) {s t : Script}
    (hs : nodes env ns s = (.ok (), t)) :
    Appends env.function s t (linesOf (Node.loweredNodes env ns)) := by
  induction ns generalizing s with
  | nil =>
    cases hs
    exact .refl _
  | cons n ns ih =>
    obtain ⟨hn, hns⟩ := List.forall_mem_cons.1 h
    obtain ⟨u, hu, ht⟩ := ok_of_andThen hs
    exact (hn s u hu).trans (ih hns ht)

theorem appends_branches {cases : List (Expr × List Node)} {isFirst : Bool}
    (h : ∀ c ∈ cases, ∀ n ∈ c.2, ∀ s t, node env n s = (.ok (), t) →
      Appends env.function s t (lines (n.lowered env))) {s t : Script}
    (hs : branches env isFirst cases s = (.ok (), t)) :
    Appends env.function s t (linesOfCases isFirst (Node.loweredCases env cases)) := by
  induction cases generalizing s isFirst with
  | nil =>
    cases hs
    exact .refl _
  | cons c cases ih =>
    obtain ⟨condition, body⟩ := c
    obtain ⟨hbody, hcases⟩ := List.forall_mem_cons.1 h
    obtain ⟨u, hu, ht⟩ := ok_of_andThen hs
    refine Appends.trans (?_ : Appends env.function _ _ [_])
      ((appends_nodes hbody hu).trans (ih hcases ht))
    cases isFirst with
    | true =>
      refine appends_line s.depth _ ?_
      simp [write, raw, indent, Line.spelled, Expr.script_lowered, String.append_assoc]
    | false =>
      refine appends_line (s.depth - 1) _ ?_
      simp [write, raw, indent, outdent, Line.spelled, Expr.script_lowered, String.append_assoc]

theorem appends_fallback {otherwise : Option (List Node)}
    (h : ∀ body ∈ otherwise, ∀ n ∈ body, ∀ s t, node env n s = (.ok (), t) →
      Appends env.function s t (lines (n.lowered env))) {s t : Script}
    (hs : fallback env otherwise s = (.ok (), t)) :
    Appends env.function s t (linesOfFallback (Node.loweredFallback env otherwise)) := by
  cases otherwise with
  | none =>
    cases hs
    exact .refl _
  | some body =>
    refine Appends.trans (?_ : Appends env.function _ _ [.fallback]) (appends_nodes (h body rfl) hs)
    refine appends_line (s.depth - 1) _ ?_
    simp [write, raw, indent, outdent, Line.spelled]

theorem appends_close (s : Script) : Appends function s (s.outdent.write "\x7d\n") [.close] := by
  refine appends_line (s.depth - 1) _ ?_
  simp [write, raw, outdent, Line.spelled]

/-- What the script of a node adds are the lines of the lowered node. -/
theorem appends_node {n : Node} {s t : Script} (h : node env n s = (.ok (), t)) :
    Appends env.function s t (lines (n.lowered env)) := by
  induction n using Node.induction generalizing s t with
  | text content =>
    cases h
    exact appends_emit (Expr.text content)
  | print e =>
    cases h
    exact appends_emit e
  | loop target items body ih =>
    obtain ⟨u, hu, ht⟩ := ok_of_andThen h
    cases ht
    refine Appends.trans (?_ : Appends env.function _ _ [_])
      ((appends_nodes (fun n hn _ _ => ih n hn) hu).trans (appends_close u))
    refine appends_line s.depth _ ?_
    simp [write, raw, indent, Line.spelled, Expr.script_lowered, String.append_assoc]
  | branch cases otherwise ihcases ihotherwise =>
    obtain ⟨u, hu, h⟩ := ok_of_andThen h
    obtain ⟨v, hv, ht⟩ := ok_of_andThen h
    cases ht
    have hfallback := appends_fallback (fun body hbody n hn _ _ => ihotherwise body hbody n hn) hv
    exact (appends_branches (fun c hc n hn _ _ => ihcases c hc n hn) hu).trans
      (hfallback.trans (appends_close v))
  | phrase p _ => exact appends_phrase h

end Polyglot.Script
