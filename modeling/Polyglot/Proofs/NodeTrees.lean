import Polyglot.Phrase.Call
import Polyglot.Proofs.ExprTrees

/-!
Templates as trees. A property of nodes can be asked of every node inside another one, the bodies of
a phrase among them but not its notes, which have no part in what a template does. The lowered form
of a node prints what the script of the node emits.
-/
namespace Polyglot

namespace Phrase

variable {N : Type}

/-- The expressions of a phrase itself. -/
def exprs (p : Phrase N) : List Expr :=
  match p.body with
  | .inline e => e :: p.domain :: p.count?.toList
  | .block _ => p.domain :: p.count?.toList

/-- The bodies of a phrase in which nodes stand. -/
def bodies (p : Phrase N) : List (List N) :=
  match p.body with
  | .inline _ => p.plural?.toList
  | .block nodes => nodes :: p.plural?.toList

theorem domain_mem_exprs (p : Phrase N) : p.domain ∈ p.exprs := by
  unfold exprs
  split <;> simp

theorem count_mem_exprs (p : Phrase N) {e : Expr} (h : p.count? = some e) : e ∈ p.exprs := by
  unfold exprs
  split <;> simp [h]

theorem plural_mem_bodies (p : Phrase N) {nodes : List N} (h : p.plural? = some nodes) :
    nodes ∈ p.bodies := by
  unfold bodies
  split <;> simp [h]

end Phrase

namespace Node

/-- The expressions of a node, apart from those of the nodes inside it. -/
def exprs : Node → List Expr
  | text _ => []
  | print e => [e]
  | loop _ items _ => [items]
  | branch cases _ => cases.map (·.1)
  | phrase p => p.exprs

/-- Induction with a hypothesis for every node of a body. -/
@[elab_as_elim]
theorem induction {motive : Node → Prop}
    (text : ∀ s, motive (text s))
    (print : ∀ e, motive (print e))
    (loop : ∀ target items body, (∀ n ∈ body, motive n) → motive (loop target items body))
    (branch : ∀ cases otherwise, (∀ c ∈ cases, ∀ n ∈ c.2, motive n) →
      (∀ body ∈ otherwise, ∀ n ∈ body, motive n) → motive (branch cases otherwise))
    (phrase : ∀ p : Phrase Node, (∀ body ∈ p.bodies, ∀ n ∈ body, motive n) → motive (phrase p))
    (n : Node) : motive n := by
  refine @Node.rec motive (fun ns => ∀ n ∈ ns, motive n)
    (fun cs => ∀ c ∈ cs, ∀ n ∈ c.2, motive n) (fun b => ∀ body ∈ b, ∀ n ∈ body, motive n)
    (fun p => ∀ body ∈ p.bodies, ∀ n ∈ body, motive n) (fun c => ∀ n ∈ c.2, motive n)
    (fun b => ∀ body, b = .block body → ∀ n ∈ body, motive n)
    (fun c => ∀ body ∈ c.bind (·.plural), ∀ n ∈ body, motive n)
    (fun c => ∀ body ∈ c.plural, ∀ n ∈ body, motive n)
    text print loop branch phrase ?_ ?_ ?_ ?_ ?_ ?_ ?_ ?_ ?_ ?_ ?_ ?_ ?_ n
  · exact fun _ h => absurd h List.not_mem_nil
  · exact fun _ _ hn hns => List.forall_mem_cons.2 ⟨hn, hns⟩
  · exact fun _ h => absurd h List.not_mem_nil
  · exact fun _ _ hc hcs => List.forall_mem_cons.2 ⟨hc, hcs⟩
  · exact fun _ h => nomatch h
  · intro body hbody _ h
    cases h
    exact hbody
  · intro body domain counted notes line hbody hcounted _
    cases body with
    | inline e =>
      intro plural hplural
      exact hcounted plural (Option.mem_toList.1 hplural)
    | block nodes =>
      refine List.forall_mem_cons.2 ⟨hbody nodes rfl, fun plural hplural => ?_⟩
      exact hcounted plural (Option.mem_toList.1 hplural)
  · exact fun _ _ h => h
  · exact fun _ _ h => nomatch h
  · intro nodes hnodes body h
    cases h
    exact hnodes
  · exact fun _ h => nomatch h
  · intro c hc plural hplural
    exact hc plural hplural
  · exact fun _ _ h => h

/-- A property holds of a node and of all nodes inside it. -/
inductive Every (p : Node → Prop) : Node → Prop
  | text {s : String} (h : p (text s)) : Every p (text s)
  | print {e : Expr} (h : p (print e)) : Every p (print e)
  | loop {target : String} {items : Expr} {body : List Node} (h : p (loop target items body))
      (hbody : ∀ n ∈ body, Every p n) : Every p (loop target items body)
  | branch {cases : List (Expr × List Node)} {otherwise : Option (List Node)}
      (h : p (branch cases otherwise)) (hcases : ∀ c ∈ cases, ∀ n ∈ c.2, Every p n)
      (hotherwise : ∀ body ∈ otherwise, ∀ n ∈ body, Every p n) : Every p (branch cases otherwise)
  | phrase {q : Phrase Node} (h : p (phrase q))
      (hbodies : ∀ body ∈ q.bodies, ∀ n ∈ body, Every p n) : Every p (phrase q)

variable {p q : Node → Prop}

theorem Every.self {n : Node} (h : n.Every p) : p n := by
  cases h <;> assumption

@[simp]
theorem every_text {s : String} : (text s).Every p ↔ p (text s) := ⟨Every.self, .text⟩

@[simp]
theorem every_print {e : Expr} : (print e).Every p ↔ p (print e) := ⟨Every.self, .print⟩

@[simp]
theorem every_loop {target : String} {items : Expr} {body : List Node} :
    (loop target items body).Every p ↔ p (loop target items body) ∧ ∀ n ∈ body, n.Every p := by
  constructor
  · intro h
    cases h with
    | loop h hbody => exact ⟨h, hbody⟩
  · intro h
    exact .loop h.1 h.2

@[simp]
theorem every_branch {cases : List (Expr × List Node)} {otherwise : Option (List Node)} :
    (branch cases otherwise).Every p ↔ p (branch cases otherwise) ∧
      (∀ c ∈ cases, ∀ n ∈ c.2, n.Every p) ∧ ∀ body ∈ otherwise, ∀ n ∈ body, n.Every p := by
  constructor
  · intro h
    cases h with
    | branch h hcases hotherwise => exact ⟨h, hcases, hotherwise⟩
  · intro h
    exact .branch h.1 h.2.1 h.2.2

@[simp]
theorem every_phrase {r : Phrase Node} :
    (phrase r).Every p ↔ p (phrase r) ∧ ∀ body ∈ r.bodies, ∀ n ∈ body, n.Every p := by
  constructor
  · intro h
    cases h with
    | phrase h hbodies => exact ⟨h, hbodies⟩
  · intro h
    exact .phrase h.1 h.2

theorem Every.mono (hpq : ∀ n, p n → q n) {n : Node} (h : n.Every p) : n.Every q := by
  induction h with
  | text h => exact .text (hpq _ h)
  | print h => exact .print (hpq _ h)
  | loop h _ ih => exact .loop (hpq _ h) ih
  | branch h _ _ ihcases ihotherwise => exact .branch (hpq _ h) ihcases ihotherwise
  | phrase h _ ih => exact .phrase (hpq _ h) ih

/-- What holds of all nodes inside a node holds of all nodes inside each of them. -/
theorem Every.every {n : Node} (h : n.Every p) : n.Every fun n => n.Every p := by
  induction h with
  | text h => exact .text (.text h)
  | print h => exact .print (.print h)
  | loop h hbody ih => exact .loop (.loop h hbody) ih
  | branch h hcases hotherwise ihcases ihotherwise =>
    exact .branch (.branch h hcases hotherwise) ihcases ihotherwise
  | phrase h hbodies ih => exact .phrase (.phrase h hbodies) ih

theorem Every.and {n : Node} (hp : n.Every p) (hq : n.Every q) : n.Every fun n => p n ∧ q n := by
  induction n using induction with
  | text s => exact .text ⟨hp.self, hq.self⟩
  | print e => exact .print ⟨hp.self, hq.self⟩
  | loop target items body ih =>
    obtain ⟨hp, hpbody⟩ := every_loop.1 hp
    obtain ⟨hq, hqbody⟩ := every_loop.1 hq
    exact .loop ⟨hp, hq⟩ fun n hn => ih n hn (hpbody n hn) (hqbody n hn)
  | branch cases otherwise ihcases ihotherwise =>
    obtain ⟨hp, hpcases, hpotherwise⟩ := every_branch.1 hp
    obtain ⟨hq, hqcases, hqotherwise⟩ := every_branch.1 hq
    refine .branch ⟨hp, hq⟩ (fun c hc n hn => ?_) fun body hbody n hn => ?_
    · exact ihcases c hc n hn (hpcases c hc n hn) (hqcases c hc n hn)
    · exact ihotherwise body hbody n hn (hpotherwise body hbody n hn) (hqotherwise body hbody n hn)
  | phrase r ih =>
    obtain ⟨hp, hpbodies⟩ := every_phrase.1 hp
    obtain ⟨hq, hqbodies⟩ := every_phrase.1 hq
    refine .phrase ⟨hp, hq⟩ fun body hbody n hn => ?_
    exact ih body hbody n hn (hpbodies body hbody n hn) (hqbodies body hbody n hn)

end Node

end Polyglot
