import Polyglot.Proofs.WellFormedPhrases

/-!
Which bodies are accepted. The check of a singular body while reading and the message that is made
of it later are written separately: the check asks whether every node will do, the message is put
together until a node will not. Both look under the same number of filters and checks, so they
accept the same bodies, up to one difference: a printed check without a filter around it is refused
by the check alone. The reader makes no such print.
-/
namespace Polyglot

/-- The expression is the variable `n` under exactly `k` filters and checks. -/
inductive Expr.Wraps (n : String) : Nat → Expr → Prop
  | name : Wraps n 0 (.name n)
  | filter {k : Nat} {e : Expr} (function : String) (args : List Expr) (h : Wraps n k e) :
    Wraps n (k + 1) (.filter e function args)
  | checked {k : Nat} {e : Expr} (h : Wraps n k e) : Wraps n (k + 1) (.checked e)

/-- A text, or a print of a variable under at most 32 filters and checks. -/
def Node.IsTextOrVariable : Node → Prop
  | text _ => True
  | print e => ∃ n k, k ≤ 32 ∧ e.Wraps n k
  | _ => False

/-- No print in the body has a check as its outermost layer. -/
def Body.PrintsNoCheck : Body Node → Prop
  | .inline _ => True
  | .block nodes => ∀ e, .print (.checked e) ∉ nodes

namespace Message

variable {e : Expr} {n : Node} {nodes : List Node} {line : Nat}

theorem exists_wraps_of_nameUnder {layers : Nat} {m : String} (h : nameUnder layers e = some m) :
    ∃ k ≤ layers, e.Wraps m k := by
  fun_induction nameUnder layers e with
  | case1 layers m =>
    cases h
    exact ⟨0, Nat.zero_le _, .name⟩
  | case2 layers e function args ih =>
    obtain ⟨k, hk, hwraps⟩ := ih h
    exact ⟨k + 1, Nat.succ_le_succ hk, .filter function args hwraps⟩
  | case3 layers e ih =>
    obtain ⟨k, hk, hwraps⟩ := ih h
    exact ⟨k + 1, Nat.succ_le_succ hk, .checked hwraps⟩
  | case4 => cases h

theorem nameUnder_of_wraps {k : Nat} {m : String} (h : e.Wraps m k) {layers : Nat}
    (hk : k ≤ layers) : nameUnder layers e = some m := by
  induction h generalizing layers with
  | name => rw [nameUnder]
  | filter function args _ ih =>
    obtain ⟨layers, rfl⟩ := Nat.exists_eq_add_of_le' hk
    exact ih (Nat.le_of_succ_le_succ hk)
  | checked _ ih =>
    obtain ⟨layers, rfl⟩ := Nat.exists_eq_add_of_le' hk
    exact ih (Nat.le_of_succ_le_succ hk)

/-- The bound on the layers cuts off exactly what is wrapped more than 32 times. -/
theorem isSome_variableName?_iff :
    (variableName? e).isSome = true ↔ ∃ m k, k ≤ 32 ∧ e.Wraps m k := by
  rw [Option.isSome_iff_exists]
  constructor
  · rintro ⟨m, hm⟩
    exact ⟨m, exists_wraps_of_nameUnder hm⟩
  · rintro ⟨m, k, hk, hwraps⟩
    exact ⟨m, nameUnder_of_wraps hwraps hk⟩

theorem isSome_piece?_iff : (piece? n).isSome = true ↔ n.IsTextOrVariable := by
  cases n with
  | text s => exact ⟨fun _ => trivial, fun _ => rfl⟩
  | print e => rw [piece?, Option.isSome_map, isSome_variableName?_iff, Node.IsTextOrVariable]
  | _ => exact ⟨fun h => (Bool.false_ne_true h).elim, False.elim⟩

theorem isSome_pieces?_iff :
    (pieces? nodes).isSome = true ↔ ∀ n ∈ nodes, n.IsTextOrVariable := by
  induction nodes with
  | nil => exact ⟨fun _ => List.forall_mem_nil _, fun _ => rfl⟩
  | cons n nodes ih =>
    rw [List.forall_mem_cons, ← isSome_piece?_iff, ← ih, pieces?]
    cases piece? n with
    | none => exact ⟨fun h => (Bool.false_ne_true h).elim, fun h => h.1⟩
    | some p =>
      cases pieces? nodes with
      | none => exact ⟨fun h => (Bool.false_ne_true h).elim, fun h => h.2⟩
      | some ps => exact ⟨fun _ => ⟨rfl, rfl⟩, fun _ => rfl⟩

/-- A message can be made of exactly the lists of texts and variables. -/
theorem exists_ofNodes_iff :
    (∃ x, ofNodes nodes line = .ok x) ↔ ∀ n ∈ nodes, n.IsTextOrVariable := by
  rw [← isSome_pieces?_iff, ofNodes]
  cases pieces? nodes with
  | none =>
    refine ⟨?_, fun h => (Bool.false_ne_true h).elim⟩
    rintro ⟨x, ⟨⟩⟩
  | some ps => exact ⟨fun _ => rfl, fun _ => ⟨_, rfl⟩⟩

/-- The check looks at a name and under a filter, but not at a check by itself. -/
theorem isTranslatable_iff (h : ∀ e, n ≠ .print (.checked e)) :
    isTranslatable n = true ↔ n.IsTextOrVariable := by
  cases n with
  | text s => exact ⟨fun _ => trivial, fun _ => rfl⟩
  | print e =>
    cases e with
    | name m => exact ⟨fun _ => ⟨m, 0, Nat.zero_le _, .name⟩, fun _ => rfl⟩
    | filter e function args => exact isSome_variableName?_iff
    | checked e => exact absurd rfl (h e)
    | _ =>
      refine ⟨fun h => (Bool.false_ne_true h).elim, ?_⟩
      rintro ⟨m, k, _, ⟨⟩⟩
  | _ => exact ⟨fun h => (Bool.false_ne_true h).elim, False.elim⟩

theorem check_block_eq_ok_iff (h : ∀ e, .print (.checked e) ∉ nodes) :
    check (.block nodes) line = .ok () ↔ ∀ n ∈ nodes, n.IsTextOrVariable := by
  have hnodes : nodes.all isTranslatable = true ↔ ∀ n ∈ nodes, n.IsTextOrVariable := by
    rw [List.all_eq_true]
    refine forall₂_congr fun n hn => isTranslatable_iff fun e he => ?_
    subst he
    exact h e hn
  rw [check_block, ← hnodes]
  split
  · next hall => exact ⟨fun _ => hall, fun _ => rfl⟩
  · next hall => exact ⟨fun h => (nomatch h), fun h => absurd h hall⟩

theorem exists_ofBody_iff {body : Body Node} (h : body.PrintsNoCheck) :
    check body line = .ok () ↔ ∃ x, ofBody body line = .ok x := by
  refine ⟨exists_ofBody_of_check, fun hx => ?_⟩
  cases body with
  | inline e =>
    obtain ⟨x, hx⟩ := hx
    rw [ofBody] at hx
    rw [check_inline]
    split at hx
    · next he => exact if_pos he
    · cases hx
  | block nodes => exact (check_block_eq_ok_iff h).2 (exists_ofNodes_iff.1 hx)

/-- The check and the message accept the same bodies, if no print has a check outermost, and refuse
all others with the same error at the line of the phrase. Among nodes they accept texts and
variables under at most 32 filters and checks. -/
theorem check_agrees_with_ofBody {body : Body Node} (h : body.PrintsNoCheck) (line : Nat) :
    (check body line = .ok () ↔ ∃ x, ofBody body line = .ok x) ∧
    (∀ e, check body line = .error e ∨ ofBody body line = .error e →
      e = .untranslatable line ∧ check body line = .error e ∧ ofBody body line = .error e) ∧
    ∀ nodes, body = .block nodes →
      (check body line = .ok () ↔ ∀ n ∈ nodes, n.IsTextOrVariable) ∧
      ((∃ x, ofBody body line = .ok x) ↔ ∀ n ∈ nodes, n.IsTextOrVariable) := by
  have hagree : check body line = .ok () ↔ ∃ x, ofBody body line = .ok x := exists_ofBody_iff h
  refine ⟨hagree, fun e he => ?_, ?_⟩
  · cases hcheck : check body line with
    | ok u =>
      obtain ⟨x, hx⟩ := hagree.1 hcheck
      rw [hcheck, hx] at he
      rcases he with he | he <;> cases he
    | error d =>
      cases hbody : ofBody body line with
      | ok x => rw [hagree.2 ⟨x, hbody⟩] at hcheck; cases hcheck
      | error d' =>
        obtain rfl := error_of_check hcheck
        obtain rfl := error_of_ofBody hbody
        rw [hcheck, hbody] at he
        rcases he with he | he <;> cases he <;> exact ⟨rfl, rfl, rfl⟩
  · rintro nodes rfl
    exact ⟨check_block_eq_ok_iff h, exists_ofNodes_iff⟩

/-- A variable under 32 filters and checks in turn is accepted, and one filter more is refused. -/
theorem check_agrees_with_ofBody_layers :
    let deep := Nat.repeat (fun e => .filter (.checked e) "lower" []) 16 (.name "x")
    (Body.block [.text "Hi ", .print deep]).PrintsNoCheck ∧
    (∃ x, ofBody (.block [.text "Hi ", .print deep]) 3 = .ok x) ∧
    (Body.block [.print (.filter deep "upper" [])]).PrintsNoCheck ∧
    ofBody (.block [.print (.filter deep "upper" [])]) 3 = .error (.untranslatable 3) := by
  intro deep
  have hdeep : (Body.block [.text "Hi ", .print deep]).PrintsNoCheck := by
    intro e he
    simp [deep, Nat.repeat] at he
  have hdeeper : (Body.block [.print (.filter deep "upper" [])]).PrintsNoCheck := by
    intro e he
    simp at he
  refine ⟨hdeep, ?_, hdeeper, ?_⟩
  · exact (check_agrees_with_ofBody hdeep 3).1.1 rfl
  · exact ((check_agrees_with_ofBody hdeeper 3).2.1 _ (.inl rfl)).2.2

/-- A printed check without a filter is refused, although a message could be made of it. -/
example : check (.block [.print (.checked (.name "x"))]) 3 = .error (.untranslatable 3) ∧
    ofBody (.block [.print (.checked (.name "x"))]) 3 =
      .ok ⟨.literal "%x%", [⟨"x", true⟩]⟩ :=
  ⟨rfl, rfl⟩

end Message

end Polyglot
