import Polyglot.Proofs.ScriptLayout

/-!
Scripts are uniquely decodable. A list of nodes without texts and phrases is determined by its
lines: the first line of a node tells its kind, and the lines of a body end where a line closes it
or goes on with another case.
-/
namespace Polyglot.Script

variable {function : String → String}

/-- A print, a loop or a branch with a case; all expressions are plain and writable. -/
def IsStatement (function : String → String) : Node → Prop
  | .text _ => False
  | .print e => e.Every (Expr.IsWritable function) ∧ e.Every Expr.IsPlain
  | .loop target items _ => Scanner.isIdentifier target = true ∧
    items.Every (Expr.IsWritable function) ∧ items.Every Expr.IsPlain
  | .branch cases _ => cases ≠ [] ∧
    ∀ c ∈ cases, c.1.Every (Expr.IsWritable function) ∧ c.1.Every Expr.IsPlain
  | .phrase _ => False

/-- Whether a line is the first one of a node. -/
def Line.opens : Line → Bool
  | emit _ => true
  | loop _ _ => true
  | test _ => true
  | next _ => false
  | fallback => false
  | close => false

def Line.isNext : Line → Bool
  | next _ => true
  | _ => false

/-- No node begins with the next line. -/
def Stops (ls : List Line) : Prop := ∀ l ∈ ls.head?, l.opens = false

/-- No further case begins with the next line either. -/
def StopsCases (ls : List Line) : Prop := ∀ l ∈ ls.head?, l.opens = false ∧ l.isNext = false

theorem lines_eq_cons {n : Node} (h : IsStatement function n) :
    ∃ l ls, lines n = l :: ls ∧ l.opens = true := by
  cases n with
  | text s => exact h.elim
  | print e => exact ⟨_, _, rfl, rfl⟩
  | loop target items body => exact ⟨_, _, rfl, rfl⟩
  | branch cases otherwise =>
    obtain ⟨hcases, _⟩ := h
    cases cases with
    | nil => exact absurd rfl hcases
    | cons c cases => exact ⟨_, _, rfl, rfl⟩
  | phrase p => exact h.elim

/-- The lines of the node tell where they end and which node it is. -/
def Decodes (function : String → String) (n : Node) : Prop :=
  ∀ m : Node, m.Every (IsStatement function) → ∀ r s, lines n ++ r = lines m ++ s → n = m ∧ r = s

theorem linesOf_inj {ns ms : List Node} (hns : ∀ n ∈ ns, n.Every (IsStatement function))
    (hms : ∀ m ∈ ms, m.Every (IsStatement function)) (hdecodes : ∀ n ∈ ns, Decodes function n)
    {r s : List Line} (hr : Stops r) (hs : Stops s) (h : linesOf ns ++ r = linesOf ms ++ s) :
    ns = ms ∧ r = s := by
  induction ns generalizing ms with
  | nil =>
    cases ms with
    | nil => exact ⟨rfl, h⟩
    | cons m ms =>
      obtain ⟨l, ls, hl, hopens⟩ := lines_eq_cons (hms m List.mem_cons_self).self
      have hhead : l ∈ r.head? := by simp [linesOf, hl] at h; simp [h]
      exact absurd hopens (by simp [hr l hhead])
  | cons n ns ih =>
    cases ms with
    | nil =>
      obtain ⟨l, ls, hl, hopens⟩ := lines_eq_cons (hns n List.mem_cons_self).self
      have hhead : l ∈ s.head? := by simp [linesOf, hl] at h; simp [← h]
      exact absurd hopens (by simp [hs l hhead])
    | cons m ms =>
      obtain ⟨_, hns'⟩ := List.forall_mem_cons.1 hns
      obtain ⟨hm, hms'⟩ := List.forall_mem_cons.1 hms
      obtain ⟨hn, hdecodes'⟩ := List.forall_mem_cons.1 hdecodes
      simp only [linesOf, List.append_assoc] at h
      obtain ⟨hnm, hrest⟩ := hn m hm _ _ h
      obtain ⟨htail, hrs⟩ := ih hns' hms' hdecodes' hrest
      exact ⟨by rw [hnm, htail], hrs⟩

theorem stops_close (r : List Line) : Stops (.close :: r) := by
  intro l hl
  cases hl
  rfl

theorem stops_linesOfFallback (otherwise : Option (List Node)) (r : List Line) :
    StopsCases (linesOfFallback otherwise ++ .close :: r) := by
  intro l hl
  cases otherwise <;> cases hl <;> exact ⟨rfl, rfl⟩

theorem stops_linesOfCases (cases : List (Expr × List Node)) {r : List Line} (hr : StopsCases r) :
    Stops (linesOfCases false cases ++ r) := by
  intro l hl
  cases cases with
  | nil => exact (hr l hl).1
  | cons c cases =>
    cases hl
    rfl

theorem linesOfCases_inj {isFirst : Bool} {cs ds : List (Expr × List Node)}
    (hcs : ∀ c ∈ cs, ∀ n ∈ c.2, n.Every (IsStatement function))
    (hds : ∀ d ∈ ds, ∀ m ∈ d.2, m.Every (IsStatement function))
    (hdecodes : ∀ c ∈ cs, ∀ n ∈ c.2, Decodes function n) {r s : List Line}
    (hr : StopsCases r) (hs : StopsCases s) (hne : isFirst = true → cs ≠ [] ∧ ds ≠ [])
    (h : linesOfCases isFirst cs ++ r = linesOfCases isFirst ds ++ s) : cs = ds ∧ r = s := by
  induction cs generalizing ds isFirst with
  | nil =>
    cases ds with
    | nil => exact ⟨rfl, h⟩
    | cons d ds =>
      cases isFirst with
      | true => exact absurd rfl (hne rfl).1
      | false =>
        obtain ⟨_, hnext⟩ := hr (.next d.1) (by simp [linesOfCases] at h; simp [h])
        cases hnext
  | cons c cs ih =>
    cases ds with
    | nil =>
      cases isFirst with
      | true => exact absurd rfl (hne rfl).2
      | false =>
        obtain ⟨_, hnext⟩ := hs (.next c.1) (by simp [linesOfCases] at h; simp [← h])
        cases hnext
    | cons d ds =>
      obtain ⟨condition, body⟩ := c
      obtain ⟨condition', body'⟩ := d
      obtain ⟨hbody, hcs'⟩ := List.forall_mem_cons.1 hcs
      obtain ⟨hbody', hds'⟩ := List.forall_mem_cons.1 hds
      obtain ⟨hdecodesBody, hdecodes'⟩ := List.forall_mem_cons.1 hdecodes
      simp only [linesOfCases, List.cons_append, List.cons.injEq, List.append_assoc] at h
      obtain ⟨hline, hrest⟩ := h
      have hcondition : condition = condition' := by cases isFirst <;> cases hline <;> rfl
      obtain ⟨hbodies, hfurther⟩ := linesOf_inj hbody hbody' hdecodesBody
        (stops_linesOfCases cs hr) (stops_linesOfCases ds hs) hrest
      change body = body' at hbodies
      obtain ⟨htail, hrs⟩ := @ih false ds hcs' hds' hdecodes' (by simp) hfurther
      exact ⟨by rw [hcondition, hbodies, htail], hrs⟩

theorem linesOfFallback_inj {o o' : Option (List Node)}
    (ho : ∀ body ∈ o, ∀ n ∈ body, n.Every (IsStatement function))
    (ho' : ∀ body ∈ o', ∀ n ∈ body, n.Every (IsStatement function))
    (hdecodes : ∀ body ∈ o, ∀ n ∈ body, Decodes function n) {r s : List Line}
    (h : linesOfFallback o ++ .close :: r = linesOfFallback o' ++ .close :: s) :
    o = o' ∧ r = s := by
  cases o with
  | none =>
    cases o' with
    | none => exact ⟨rfl, (List.cons.inj h).2⟩
    | some body' => cases (List.cons.inj h).1
  | some body =>
    cases o' with
    | none => cases (List.cons.inj h).1
    | some body' =>
      obtain ⟨rfl, hrest⟩ := linesOf_inj (ho body rfl) (ho' body' rfl) (hdecodes body rfl)
        (stops_close r) (stops_close s) (List.cons.inj h).2
      exact ⟨rfl, (List.cons.inj hrest).2⟩

/-- Statements are uniquely decodable. -/
theorem decodes {n : Node} (hn : n.Every (IsStatement function)) : Decodes function n := by
  induction n using Node.induction with
  | text s => exact hn.self.elim
  | print e =>
    intro m hm r s h
    obtain ⟨l, ls, hl, _⟩ := lines_eq_cons hm.self
    cases m with
    | print d =>
      obtain ⟨hline, hrest⟩ := List.cons.inj h
      cases hline
      exact ⟨rfl, hrest⟩
    | loop target items body => cases (List.cons.inj h).1
    | branch cases otherwise =>
      obtain ⟨c, cs, rfl⟩ := List.exists_cons_of_ne_nil hm.self.1
      cases (List.cons.inj h).1
    | text s => exact hm.self.elim
    | phrase p => exact hm.self.elim
  | loop target items body ih =>
    intro m hm r s h
    cases m with
    | print d => cases (List.cons.inj h).1
    | loop target' items' body' =>
      obtain ⟨_, hbody⟩ := Node.every_loop.1 hn
      obtain ⟨_, hbody'⟩ := Node.every_loop.1 hm
      simp only [lines, List.cons_append, List.append_assoc, List.cons.injEq] at h
      obtain ⟨hline, hrest⟩ := h
      cases hline
      obtain ⟨rfl, hclose⟩ := linesOf_inj hbody hbody' (fun n hn => ih n hn (hbody n hn))
        (stops_close r) (stops_close s) hrest
      exact ⟨rfl, (List.cons.inj hclose).2⟩
    | branch cases otherwise =>
      obtain ⟨c, cs, rfl⟩ := List.exists_cons_of_ne_nil hm.self.1
      cases (List.cons.inj h).1
    | text s => exact hm.self.elim
    | phrase p => exact hm.self.elim
  | branch cases otherwise ihcases ihotherwise =>
    intro m hm r s h
    cases m with
    | print d =>
      obtain ⟨c, cs, rfl⟩ := List.exists_cons_of_ne_nil hn.self.1
      cases (List.cons.inj h).1
    | loop target' items' body' =>
      obtain ⟨c, cs, rfl⟩ := List.exists_cons_of_ne_nil hn.self.1
      cases (List.cons.inj h).1
    | branch cases' otherwise' =>
      obtain ⟨⟨hne, _⟩, hcases, hotherwise⟩ := Node.every_branch.1 hn
      obtain ⟨⟨hne', _⟩, hcases', hotherwise'⟩ := Node.every_branch.1 hm
      simp only [lines, List.append_assoc] at h
      obtain ⟨rfl, hrest⟩ := linesOfCases_inj hcases hcases'
        (fun c hc n hn => ihcases c hc n hn (hcases c hc n hn))
        (stops_linesOfFallback otherwise r) (stops_linesOfFallback otherwise' s)
        (fun _ => ⟨hne, hne'⟩) h
      obtain ⟨rfl, hrs⟩ := linesOfFallback_inj hotherwise hotherwise'
        (fun body hbody n hn => ihotherwise body hbody n hn (hotherwise body hbody n hn)) hrest
      exact ⟨rfl, hrs⟩
    | text s => exact hm.self.elim
    | phrase p => exact hm.self.elim
  | phrase p _ => exact hn.self.elim

theorem eq_of_linesOf_eq {ns ms : List Node} (hns : ∀ n ∈ ns, n.Every (IsStatement function))
    (hms : ∀ m ∈ ms, m.Every (IsStatement function)) (h : linesOf ns = linesOf ms) : ns = ms := by
  have hstops : Stops [] := fun l hl => nomatch hl
  have hnil : linesOf ns ++ [] = linesOf ms ++ [] := by rw [h]
  exact (linesOf_inj hns hms (fun n hn => decodes (hns n hn)) hstops hstops hnil).1

/-- The lines of statements are clean. -/
theorem isClean_of_mem_linesOf {ns : List Node}
    (h : ∀ n ∈ ns, ∀ l ∈ lines n, l.IsClean function) : ∀ l ∈ linesOf ns, l.IsClean function := by
  induction ns with
  | nil => exact fun _ hl => absurd hl List.not_mem_nil
  | cons n ns ih =>
    obtain ⟨hn, hns⟩ := List.forall_mem_cons.1 h
    exact List.forall_mem_append.2 ⟨hn, ih hns⟩

theorem isClean_of_mem_linesOfCases {cases : List (Expr × List Node)} {isFirst : Bool}
    (hconditions : ∀ c ∈ cases, c.1.Every (Expr.IsWritable function) ∧ c.1.Every Expr.IsPlain)
    (h : ∀ c ∈ cases, ∀ n ∈ c.2, ∀ l ∈ lines n, l.IsClean function) :
    ∀ l ∈ linesOfCases isFirst cases, l.IsClean function := by
  induction cases generalizing isFirst with
  | nil => exact fun _ hl => absurd hl List.not_mem_nil
  | cons c cases ih =>
    obtain ⟨hcondition, hconditions⟩ := List.forall_mem_cons.1 hconditions
    obtain ⟨hbody, hcases⟩ := List.forall_mem_cons.1 h
    refine List.forall_mem_cons.2 ⟨by cases isFirst <;> exact hcondition, ?_⟩
    exact List.forall_mem_append.2 ⟨isClean_of_mem_linesOf hbody, ih hconditions hcases⟩

theorem isClean_of_mem_lines {n : Node} (h : n.Every (IsStatement function)) :
    ∀ l ∈ lines n, l.IsClean function := by
  induction n using Node.induction with
  | text s => exact h.self.elim
  | print e => exact List.forall_mem_singleton.2 h.self
  | loop target items body ih =>
    obtain ⟨hself, hbody⟩ := Node.every_loop.1 h
    refine List.forall_mem_cons.2 ⟨hself, List.forall_mem_append.2 ⟨?_, ?_⟩⟩
    · exact isClean_of_mem_linesOf fun n hn => ih n hn (hbody n hn)
    · exact List.forall_mem_singleton.2 trivial
  | branch cases otherwise ihcases ihotherwise =>
    obtain ⟨⟨_, hconditions⟩, hcases, hotherwise⟩ := Node.every_branch.1 h
    refine List.forall_mem_append.2 ⟨?_, List.forall_mem_append.2 ⟨?_, ?_⟩⟩
    · exact isClean_of_mem_linesOfCases hconditions
        fun c hc n hn => ihcases c hc n hn (hcases c hc n hn)
    · cases otherwise with
      | none => exact fun _ hl => absurd hl List.not_mem_nil
      | some body =>
        refine List.forall_mem_cons.2 ⟨trivial, isClean_of_mem_linesOf fun n hn => ?_⟩
        exact ihotherwise body rfl n hn (hotherwise body rfl n hn)
    · exact List.forall_mem_singleton.2 trivial
  | phrase p _ => exact h.self.elim

/-- A text is laid out in the lines of one list of statements only. -/
theorem Lays.statements_unique {w : List Char} {ns ms : List Node}
    (hns : ∀ n ∈ ns, n.Every (IsStatement function))
    (hms : ∀ m ∈ ms, m.Every (IsStatement function)) (h : Lays function w (linesOf ns))
    (h' : Lays function w (linesOf ms)) : ns = ms := by
  refine eq_of_linesOf_eq hns hms (h.unique h' ?_ ?_)
  · exact isClean_of_mem_linesOf fun n hn => isClean_of_mem_lines (hns n hn)
  · exact isClean_of_mem_linesOf fun m hm => isClean_of_mem_lines (hms m hm)

end Polyglot.Script
