import Mathlib.Data.List.Induction
import Polyglot.Proofs.PhraseCalls

/-!
The variables of a phrase. Its bodies print variables in some order, some of them more than once;
its call lists each of them once, as it is printed first. A step lemma says what adding one
variable to a list changes, and the union of lists is treated by induction on the variables added.
-/
namespace Polyglot

namespace Variable

theorem mem_names_add {known : List Variable} {v : Variable} {n : String} :
    n ∈ (add known v).map (·.name) ↔ n ∈ known.map (·.name) ∨ n = v.name := by
  unfold add
  split
  · next h =>
    obtain ⟨w, hw, hname⟩ := List.any_eq_true.1 h
    have hv : v.name ∈ known.map (·.name) := List.mem_map.2 ⟨w, hw, by simpa using hname⟩
    constructor
    · exact Or.inl
    · rintro (h | rfl)
      · exact h
      · exact hv
  · simp

theorem add_of_mem {known : List Variable} {v : Variable} (h : v.name ∈ known.map (·.name)) :
    add known v = known := by
  obtain ⟨w, hw, hname⟩ := List.mem_map.1 h
  have hany : known.any (·.name == v.name) = true := List.any_eq_true.2 ⟨w, hw, by simp [hname]⟩
  rw [add, if_pos hany]

theorem add_of_not_mem {known : List Variable} {v : Variable} (h : v.name ∉ known.map (·.name)) :
    add known v = known ++ [v] := by
  have hany : ¬ known.any (·.name == v.name) = true := by
    intro hany
    obtain ⟨w, hw, hname⟩ := List.any_eq_true.1 hany
    exact h (List.mem_map.2 ⟨w, hw, by simpa using hname⟩)
  rw [add, if_neg hany]

theorem union_append (known new newer : List Variable) :
    union known (new ++ newer) = union (union known new) newer :=
  List.foldl_append

theorem mem_names_union {known new : List Variable} {n : String} :
    n ∈ (union known new).map (·.name) ↔ n ∈ known.map (·.name) ∨ n ∈ new.map (·.name) := by
  induction new generalizing known with
  | nil => simp [union]
  | cons v new ih =>
    change n ∈ (union (add known v) new).map (·.name) ↔ _
    rw [ih, mem_names_add, List.map_cons, List.mem_cons, or_assoc]

theorem nodup_names_union {known new : List Variable} (h : (known.map (·.name)).Nodup) :
    ((union known new).map (·.name)).Nodup := by
  induction new generalizing known with
  | nil => exact h
  | cons v new ih =>
    apply ih
    by_cases hv : v.name ∈ known.map (·.name)
    · rw [add_of_mem hv]
      exact h
    · rw [add_of_not_mem hv, List.map_append]
      exact List.nodup_append.2 ⟨h, by simp, by simpa using hv⟩

/-- Of the variables of one name, the first one is kept. -/
theorem find?_union (known new : List Variable) (n : String) :
    (union known new).find? (·.name == n) = (known ++ new).find? (·.name == n) := by
  induction new generalizing known with
  | nil => simp [union]
  | cons v new ih =>
    change (union (add known v) new).find? (·.name == n) = _
    rw [ih]
    by_cases hv : v.name ∈ known.map (·.name)
    · rw [add_of_mem hv, List.find?_append, List.find?_append]
      by_cases hn : v.name = n
      · obtain ⟨w, hw, hname⟩ := List.mem_map.1 hv
        have hfound : (known.find? (·.name == n)).isSome :=
          List.find?_isSome.2 ⟨w, hw, by simp [hname, hn]⟩
        rw [Option.or_of_isSome hfound, Option.or_of_isSome hfound]
      · rw [List.find?_cons_of_neg (by simpa using hn)]
    · rw [add_of_not_mem hv, List.append_assoc]
      rfl

/-- What a union has taken in already is not taken in twice. -/
theorem union_union (known new : List Variable) :
    union known (union [] new) = union known new := by
  induction new using List.reverseRecOn with
  | nil => rfl
  | append_singleton new v ih =>
    rw [union_append, union_append]
    change union known (add (union [] new) v) = add (union known new) v
    by_cases hv : v.name ∈ (union [] new).map (·.name)
    · have hnew : v.name ∈ new.map (·.name) := by simpa using mem_names_union.1 hv
      rw [add_of_mem hv, ih, add_of_mem (mem_names_union.2 (.inr hnew))]
    · rw [add_of_not_mem hv, union_append, ih]
      rfl

theorem find?_of_mem {vs : List Variable} (hvs : (vs.map (·.name)).Nodup) {v : Variable}
    (hv : v ∈ vs) : vs.find? (·.name == v.name) = some v := by
  induction vs with
  | nil => exact absurd hv List.not_mem_nil
  | cons w vs ih =>
    rw [List.map_cons, List.nodup_cons] at hvs
    rcases List.mem_cons.1 hv with rfl | hv
    · simp
    · have hne : w.name ≠ v.name := fun h => hvs.1 (h ▸ List.mem_map.2 ⟨v, hv, rfl⟩)
      rw [List.find?_cons_of_neg (by simpa using hne), ih hvs.2 hv]

theorem placeholder_injective {v w : Variable} (h : v.placeholder = w.placeholder) :
    v.name = w.name := by
  have hchars := congrArg String.toList h
  simp only [placeholder, String.toList_append] at hchars
  exact String.toList_injective (List.append_cancel_left (List.append_cancel_right hchars))

end Variable

namespace Node

/-- The variable that a node prints, raw if no filter is around it. -/
def var? : Node → Option Variable
  | print e => (Message.variableName? e).map fun n => ⟨n, !e.isFilter⟩
  | _ => none

end Node

namespace Message

theorem held?_of_piece? {n : Node} {p : Piece} (h : piece? n = some p) :
    p.held? = n.var? := by
  cases n with
  | text s =>
    cases h
    rfl
  | print e =>
    obtain ⟨m, hm, rfl⟩ := Option.map_eq_some_iff.1 h
    simp [Node.var?, hm, Piece.held?]
  | loop target items body => cases h
  | branch cases otherwise => cases h
  | phrase q => cases h

theorem filterMap_held?_of_pieces? {nodes : List Node} {ps : List Piece}
    (h : pieces? nodes = some ps) : ps.filterMap (·.held?) = nodes.filterMap (·.var?) := by
  induction nodes generalizing ps with
  | nil =>
    cases h
    rfl
  | cons n nodes ih =>
    rw [pieces?] at h
    obtain ⟨p, hp, h⟩ := Option.bind_eq_some_iff.1 h
    obtain ⟨qs, hqs, h⟩ := Option.bind_eq_some_iff.1 h
    cases h
    rw [List.filterMap_cons, List.filterMap_cons, held?_of_piece? hp, ih hqs]

theorem vars_of_ofNodes {nodes : List Node} {line : Nat} {x : Extracted}
    (h : ofNodes nodes line = .ok x) :
    x.vars = Variable.union [] (nodes.filterMap (·.var?)) := by
  obtain ⟨ps, hps, rfl⟩ := eq_ofPieces h
  rw [ofPieces, filterMap_held?_of_pieces? hps]

end Message

namespace Phrase

/-- The variables that the bodies print, the singular body before the plural one. -/
def occurrences (p : Phrase Node) : List Variable :=
  p.bodies.flatten.filterMap (·.var?)

/-- The names of the variables in the messages. -/
def names (p : Phrase Node) : List String := p.occurrences.map (·.name)

/-- The variables that the call of a phrase lists. -/
def vars (p : Phrase Node) : List Variable := Variable.union [] p.occurrences

variable {p : Phrase Node}

theorem mem_names_vars {n : String} : n ∈ p.vars.map (·.name) ↔ n ∈ p.names := by
  rw [vars, Variable.mem_names_union, names]
  simp

theorem nodup_names_vars : (p.vars.map (·.name)).Nodup :=
  Variable.nodup_names_union List.nodup_nil

/-- A variable of the call is the first one of its name. -/
theorem find?_of_mem_vars {v : Variable} (h : v ∈ p.vars) :
    p.occurrences.find? (·.name == v.name) = some v := by
  have hfind := Variable.find?_of_mem nodup_names_vars h
  rw [vars, Variable.find?_union] at hfind
  exact hfind

theorem name_mem_of_mem_vars {v : Variable} (h : v ∈ p.vars) : v.name ∈ p.names :=
  mem_names_vars.1 (List.mem_map.2 ⟨v, h, rfl⟩)

theorem vars_of_ofBody {x : Extracted} (h : Message.ofBody p.body p.line = .ok x) :
    ∃ occurrences, x.vars = Variable.union [] occurrences ∧
      p.occurrences = occurrences ++ (p.plural?.toList.flatten).filterMap (·.var?) := by
  unfold Message.ofBody at h
  split at h
  · next e hbody =>
    split at h
    · cases h
      exact ⟨[], rfl, by rw [occurrences, bodies, hbody]; rfl⟩
    · cases h
  · next nodes hbody =>
    refine ⟨nodes.filterMap (·.var?), Message.vars_of_ofNodes h, ?_⟩
    simp only [occurrences, bodies, hbody]
    rw [List.flatten_cons, List.filterMap_append]

/-- The call of a phrase, by whether there is a plural body. -/
theorem call_eq {targets : Targets} {e : Expr} (h : p.call targets = .ok e) :
    ∃ x, Message.ofBody p.body p.line = .ok x ∧
      ((∃ count plural y, p.count? = some count ∧ p.plural? = some plural ∧
          Message.ofNodes plural p.line = .ok y ∧
          e = .call targets.translatePlural
            ([.list [x.message.toExpr, y.message.toExpr], p.domain, absolute count] ++
              replacements p.count? targets p.vars)) ∨
        p.plural? = none ∧ e = .call targets.translate
          ([x.message.toExpr, p.domain] ++ replacements p.count? targets p.vars)) := by
  obtain ⟨x, hx, hcases⟩ := call_cases h
  obtain ⟨singular, hsingular, hoccurrences⟩ := vars_of_ofBody hx
  refine ⟨x, hx, ?_⟩
  rcases hcases with ⟨count, plural, y, hcounted, hy, rfl⟩ | ⟨hnone, rfl⟩
  · have hcount : p.count? = some count := by simp [count?, hcounted]
    have hplural : p.plural? = some plural := by simp [plural?, hcounted]
    have hvars : Variable.union x.vars y.vars = p.vars := by
      rw [hsingular, Message.vars_of_ofNodes hy, Variable.union_union, vars, hoccurrences,
        Variable.union_append]
      simp [hplural]
    refine .inl ⟨count, plural, y, hcount, hplural, hy, ?_⟩
    rw [hvars, hcount]
  · have hvars : x.vars = p.vars := by
      rw [hsingular, vars, hoccurrences]
      simp [hnone]
    refine .inr ⟨hnone, ?_⟩
    rw [hvars]

end Phrase

end Polyglot
